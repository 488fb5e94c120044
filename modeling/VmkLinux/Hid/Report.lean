/-
  VmkLinux/Hid/Report.lean
  ========================
  **What is put into a report comes out of it.**

  A report is seen as its bits (`bit`): to write a field of bits sets those and no others
  (`bit_implement`), although eight bytes are read and written back for it, and to read one
  takes just those (`getLsbD_extract`).  `hid_output_field` also clears bits behind its
  field, which may belong to the next one; that does no harm, as fields are written in the
  order in which `hid_add_field` laid them out.
-/
import VmkLinux.Hid.Model
import Mathlib.Data.List.Basic

namespace VmkLinux.Hid

open ByteBuf

/-! ### Bits -/

/-- Bit number `p` of a report. -/
def bit (data : Buf) (p : Nat) : Bool := (data (p / 8)).toBitVec.getLsbD (p % 8)

theorem getLsbD_loadLe {data : Buf} {i n k : Nat} (h : k < 8 * n) :
    (loadLe data i n).getLsbD k = bit data (8 * i + k) := by
  induction n generalizing i k with
  | zero => omega
  | succ n ih =>
    show (loadLe data (i + 1) n ++ (data i).toBitVec).getLsbD k = _
    rw [BitVec.getLsbD_append]
    split
    · unfold bit
      rw [show (8 * i + k) / 8 = i by omega, show (8 * i + k) % 8 = k by omega]
    · rw [ih (by omega)]
      congr 1
      omega

theorem getLsbD_mask {w n k : Nat} (h : n < w) :
    (1#w <<< n - 1#w).getLsbD k = decide (k < n) := by
  have hpow : 2 ^ n < 2 ^ w := Nat.pow_lt_pow_right (by decide) h
  have hpos : 0 < 2 ^ n := Nat.two_pow_pos n
  have hone : 1 < 2 ^ w := by omega
  have hnat : (1#w <<< n - 1#w).toNat = 2 ^ n - 1 := by
    rw [BitVec.toNat_sub, BitVec.toNat_shiftLeft, BitVec.toNat_ofNat, Nat.mod_eq_of_lt hone,
      Nat.one_shiftLeft, Nat.mod_eq_of_lt hpow]
    rw [show 2 ^ w - 1 + 2 ^ n = (2 ^ n - 1) + 2 ^ w by omega, Nat.add_mod_right,
      Nat.mod_eq_of_lt (by omega)]
  rw [BitVec.getLsbD, hnat, Nat.testBit_two_pow_sub_one]

/-- **Reading a field of bits.** -/
theorem getLsbD_extract {data : Buf} {offset n k : Nat} (h : n ≤ 32) :
    (extract data offset n).getLsbD k = (decide (k < n) && bit data (offset + k)) := by
  unfold extract
  rw [BitVec.getLsbD_setWidth, BitVec.getLsbD_and, BitVec.getLsbD_ushiftRight,
    getLsbD_mask (by omega)]
  by_cases hk : k < n
  · have hload :
        (getUnaligned data (offset / 8)).getLsbD (offset % 8 + k) = bit data (offset + k) := by
      unfold getUnaligned
      rw [getLsbD_loadLe (by omega)]
      congr 1
      omega
    rw [hload]
    simp [hk, show k < 32 by omega]
  · simp [hk]

theorem bit_putUnaligned {data : Buf} {i p : Nat} {x : BitVec 64} :
    bit (putUnaligned data i x) p =
      if 8 * i ≤ p ∧ p < 8 * i + 64 then x.getLsbD (p - 8 * i) else bit data p := by
  unfold bit putUnaligned
  by_cases h : 8 * i ≤ p ∧ p < 8 * i + 64
  · rw [if_pos h, if_pos (by omega)]
    show (x.extractLsb' (8 * (p / 8 - i)) 8).getLsbD (p % 8) = _
    rw [BitVec.getLsbD_extractLsb', decide_eq_true (Nat.mod_lt p (by decide)), Bool.true_and]
    congr 1
    omega
  · rw [if_neg h, if_neg (by omega)]

/-- **Writing a field of bits.** -/
theorem bit_implement {data : Buf} {offset n p : Nat} {value : BitVec 32} (h : n ≤ 32) :
    bit (implement data offset n value) p =
      if offset ≤ p ∧ p < offset + n then value.getLsbD (p - offset) else bit data p := by
  unfold implement
  rw [bit_putUnaligned]
  by_cases hword : 8 * (offset / 8) ≤ p ∧ p < 8 * (offset / 8) + 64
  · rw [if_pos hword]
    have hload : (getUnaligned data (offset / 8)).getLsbD (p - 8 * (offset / 8)) = bit data p := by
      unfold getUnaligned
      rw [getLsbD_loadLe (by omega)]
      congr 1
      omega
    simp only [BitVec.getLsbD_or, BitVec.getLsbD_and, BitVec.getLsbD_not, BitVec.getLsbD_shiftLeft,
      BitVec.getLsbD_setWidth, hload, getLsbD_mask (show n < 64 by omega)]
    by_cases hin : offset ≤ p ∧ p < offset + n
    · rw [if_pos hin]
      have hsub : p - 8 * (offset / 8) - offset % 8 = p - offset := by omega
      have hlow : ¬ p - 8 * (offset / 8) < offset % 8 := by omega
      rw [hsub]
      simp [show p - 8 * (offset / 8) < 64 by omega, hlow, show p - offset < n by omega,
        show p - offset < 32 by omega, show p - offset < 64 by omega]
    · rw [if_neg hin]
      rcases Nat.lt_or_ge p offset with hlt | hge
      · have hlow : p - 8 * (offset / 8) < offset % 8 := by omega
        simp [show p - 8 * (offset / 8) < 64 by omega, hlow]
      · simp [show p - 8 * (offset / 8) < 64 by omega,
          show ¬ p - 8 * (offset / 8) - offset % 8 < n by omega]
  · rw [if_neg hword, if_neg (by omega)]

/-! ### One field -/

/-- Where a field ends. -/
def Field.stop (f : Field) : Nat := f.place f.reportCount

/-- The first bit behind the bytes that `n` bits take. -/
def roundUp (n : Nat) : Nat := 8 * ((n + 7) / 8)

theorem Field.place_add_le {f : Field} {n j : Nat} (h : n < j) :
    f.place n + f.reportSize ≤ f.place j := by
  have hle : (n + 1) * f.reportSize ≤ j * f.reportSize := Nat.mul_le_mul_right _ h
  rw [Nat.add_mul, Nat.one_mul] at hle
  unfold Field.place
  omega

theorem Field.offset_le_place (f : Field) (n : Nat) : f.reportOffset ≤ f.place n :=
  Nat.le_add_right _ _

theorem bit_clearUnused {f : Field} {data : Buf} {p : Nat} (h : p < f.stop ∨ roundUp f.stop ≤ p) :
    bit (clearUnused f data) p = bit data p := by
  unfold Field.stop Field.place roundUp at h
  unfold bit clearUnused
  split
  · rename_i hused
    show ((data (p / 8)).toBitVec &&& (1#8 <<< _ - 1#8)).getLsbD (p % 8) = _
    rw [BitVec.getLsbD_and, getLsbD_mask (Nat.mod_lt _ (by decide)), decide_eq_true (by omega),
      Bool.and_true]
  · rfl

/-- The values of the field stand in the report. -/
def Holds (f : Field) (data : Buf) : Prop :=
  ∀ n v, n < f.reportCount → encode f n = some v →
    ∀ k, k < f.reportSize → bit data (f.place n + k) = v.getLsbD k

/-- All values can be written. -/
def Encodes (f : Field) : Prop := ∀ n, n < f.reportCount → ∃ v, encode f n = some v

/-- The loop of `hid_output_field`, after `j` values. -/
theorem exists_outputValues {f : Field} (hsize : f.reportSize ≤ 32) (henc : Encodes f)
    (data : Buf) {j : Nat} (hj : j ≤ f.reportCount) :
    ∃ out, (List.range j).foldlM (outputValue f) data = some out ∧
      (∀ n v, n < j → encode f n = some v →
        ∀ k, k < f.reportSize → bit out (f.place n + k) = v.getLsbD k) ∧
      ∀ p, p < f.reportOffset ∨ f.place j ≤ p → bit out p = bit data p := by
  induction j with
  | zero => exact ⟨data, rfl, fun n v hn => absurd hn (Nat.not_lt_zero n), fun _ _ => rfl⟩
  | succ j ih =>
    obtain ⟨out, hrun, hvalues, hkept⟩ := ih (by omega)
    obtain ⟨v, hv⟩ := henc j (by omega)
    have hbefore := f.offset_le_place j
    have hnext : f.place j + f.reportSize ≤ f.place (j + 1) := f.place_add_le (Nat.lt_succ_self j)
    refine ⟨implement out (f.place j) f.reportSize v, ?_, ?_, ?_⟩
    · rw [List.range_succ, List.foldlM_append, hrun]
      show ((encode f j).map _).bind _ = _
      rw [hv]
      rfl
    · intro n w hn hw k hk
      rw [bit_implement hsize]
      rcases Nat.lt_or_ge n j with hlt | hge
      · have hle := f.place_add_le hlt
        rw [if_neg (by omega)]
        exact hvalues n w hlt hw k hk
      · obtain rfl : n = j := by omega
        obtain rfl : v = w := Option.some.inj (hv.symm.trans hw)
        rw [if_pos (by omega), Nat.add_sub_cancel_left]
    · intro p hp
      rw [bit_implement hsize, if_neg (by omega)]
      exact hkept p (by omega)

/-- **`hid_output_field`** writes its values and leaves alone what is before them, and the
    bytes behind. -/
theorem exists_hidOutputField {f : Field} (hsize : f.reportSize ≤ 32) (henc : Encodes f)
    (data : Buf) :
    ∃ out, hidOutputField f data = some out ∧ Holds f out ∧
      ∀ p, p < f.reportOffset ∨ roundUp f.stop ≤ p → bit out p = bit data p := by
  obtain ⟨out, hrun, hvalues, hkept⟩ :=
    exists_outputValues hsize henc (clearUnused f data) (Nat.le_refl f.reportCount)
  have hbefore := f.offset_le_place f.reportCount
  refine ⟨out, hrun, hvalues, fun p hp => ?_⟩
  have hstop : f.place f.reportCount ≤ roundUp (f.place f.reportCount) := by
    unfold roundUp
    omega
  unfold Field.stop at hp
  rw [hkept p (by omega), bit_clearUnused (by unfold Field.stop; omega)]

theorem Holds.congr {f : Field} {data data' : Buf} (h : Holds f data)
    (heq : ∀ p, p < f.stop → bit data' p = bit data p) : Holds f data' := by
  intro n v hn hv k hk
  have hle := f.place_add_le hn
  rw [heq _ (by unfold Field.stop; omega)]
  exact h n v hn hv k hk

/-! ### All fields of a report -/

/-- Fields that can be written, each behind the one before it. -/
structure Laid (fields : List Field) : Prop where
  size_le : ∀ f ∈ fields, f.reportSize ≤ 32
  encodes : ∀ f ∈ fields, Encodes f
  ordered : fields.Pairwise fun f g => f.stop ≤ g.reportOffset

theorem exists_outputFields {fields : List Field} (h : Laid fields) (data : Buf) :
    ∃ out, outputFields fields data = some out ∧ (∀ f ∈ fields, Holds f out) ∧
      ∀ p, (∀ f ∈ fields, p < f.reportOffset) ∨ (∀ f ∈ fields, roundUp f.stop ≤ p) →
        bit out p = bit data p := by
  induction fields generalizing data with
  | nil => exact ⟨data, rfl, fun f hf => absurd hf (List.not_mem_nil), fun _ _ => rfl⟩
  | cons f fields ih =>
    obtain ⟨hbehind, hordered⟩ := List.pairwise_cons.mp h.ordered
    obtain ⟨out, hrun, hholds, hkept⟩ := exists_hidOutputField
      (h.size_le f (List.mem_cons_self)) (h.encodes f (List.mem_cons_self)) data
    obtain ⟨out', hrun', hholds', hkept'⟩ := ih
      ⟨fun g hg => h.size_le g (List.mem_cons_of_mem f hg),
        fun g hg => h.encodes g (List.mem_cons_of_mem f hg), hordered⟩ out
    refine ⟨out', ?_, ?_, ?_⟩
    · unfold outputFields at hrun' ⊢
      rw [List.foldlM_cons, hrun]
      exact hrun'
    · intro g hg
      rcases List.mem_cons.mp hg with rfl | hg
      · exact hholds.congr fun p hp => hkept' p
          (.inl fun g hg => Nat.lt_of_lt_of_le hp (hbehind g hg))
      · exact hholds' g hg
    · intro p hp
      have hhead := hp.imp (fun hall => hall f (List.mem_cons_self))
        (fun hall => hall f (List.mem_cons_self))
      have htail := hp.imp (fun hall g hg => hall g (List.mem_cons_of_mem f hg))
        (fun hall g hg => hall g (List.mem_cons_of_mem f hg))
      rw [hkept' p htail, hkept p hhead]

/-! ### Reading back -/

theorem extract_of_holds {f : Field} {data : Buf} {n : Nat} {v : BitVec 32} (h : Holds f data)
    (hsize : f.reportSize ≤ 32) (hn : n < f.reportCount) (hv : encode f n = some v) :
    extract data (f.place n) f.reportSize = (v.setWidth f.reportSize).setWidth 32 := by
  apply BitVec.eq_of_getLsbD_eq
  intro k hk
  rw [getLsbD_extract hsize, BitVec.getLsbD_setWidth, BitVec.getLsbD_setWidth,
    decide_eq_true hk, Bool.true_and]
  by_cases hlt : k < f.reportSize
  · rw [h n v hn hv k hlt]
  · rw [decide_eq_false hlt, Bool.false_and, Bool.false_and]

/-- What `s32ton` returns fits. -/
theorem getLsbD_s32ton {v e : BitVec 32} {n k : Nat} (h : s32ton v n = some e) (hn : n ≤ k) :
    e.getLsbD k = false := by
  unfold s32ton shl at h
  split at h
  · cases h
  · rename_i hpos
    dsimp only at h
    split at h
    · rw [if_pos (by omega)] at h
      obtain rfl := Option.some.inj h
      split
      · rw [BitVec.getLsbD_shiftLeft, BitVec.getLsbD_one]
        simp only [Bool.and_eq_false_iff, Bool.not_eq_false', decide_eq_false_iff_not,
          decide_eq_true_eq]
        right
        omega
      · rw [getLsbD_mask (by omega)]
        exact decide_eq_false (by omega)
    · split at h
      · obtain rfl := Option.some.inj h
        rw [BitVec.getLsbD_and, getLsbD_mask (by omega), decide_eq_false (by omega), Bool.and_false]
      · cases h

theorem setWidth_of_fits {e : BitVec 32} {n : Nat} (h : ∀ k, n ≤ k → e.getLsbD k = false) :
    (e.setWidth n).setWidth 32 = e := by
  apply BitVec.eq_of_getLsbD_eq
  intro k hk
  rw [BitVec.getLsbD_setWidth, BitVec.getLsbD_setWidth, decide_eq_true hk, Bool.true_and]
  by_cases hlt : k < n
  · rw [decide_eq_true hlt, Bool.true_and]
  · rw [decide_eq_false hlt, Bool.false_and, h k (Nat.le_of_not_lt hlt)]

/-! ### Reports as they come about -/

/-- The reports that items lay out and that `hid_set_field` gives their values.
    `hid_parser_global` refuses sizes of more than 32 bits. -/
inductive Made : Report → Prop
  | registered (id : Nat) : Made (hidRegisterReport id)
  | added {r : Report} (h : Made r) (alloc : Bool) (items : Items) (flags : BitVec 32)
      (hsize : items.reportSize ≤ 32) : Made (hidAddField r alloc items flags).2
  | assigned {r : Report} (h : Made r) (k offset : Nat) (value : BitVec 32) {f f' : Field}
      {ret : Int} (hk : r.fields[k]? = some f)
      (hset : hidSetField f offset value = some (ret, f')) :
      Made { r with fields := r.fields.set k f' }

/-- A value that comes back from a field of `n` bits with a sign. -/
def Accepted (n : Nat) (v : BitVec 32) : Prop := ∃ e, s32ton v n = some e ∧ snto32 e n = some v

theorem accepted_zero {n : Nat} (hpos : 0 < n) (hlt : n < 32) : Accepted n 0#32 := by
  refine ⟨0#32, ?_, ?_⟩
  · unfold s32ton shl
    rw [if_neg (by omega)]
    have hshift : (0#32).sshiftRight (n - 1) = 0#32 := by
      rw [BitVec.sshiftRight_eq_of_msb_false (by decide)]
      exact BitVec.zero_ushiftRight
    simp only [hshift]
    rw [if_neg (by simp), if_pos hlt]
    simp
  · unfold snto32 shl
    split
    · rfl
    · split
      · rfl
      · rw [if_neg (by omega), if_neg (by omega), if_pos (by omega)]
        simp

/-- **What `hid_set_field` does.** -/
theorem hidSetField_cases {f f' : Field} {offset : Nat} {value : BitVec 32} {ret : Int}
    (h : hidSetField f offset value = some (ret, f')) :
    f' = f ∨ (f' = { f with value := f.value.set offset value } ∧
      (f.signed = true → Accepted f.reportSize value)) := by
  unfold hidSetField at h
  split at h
  · exact .inl (Prod.mk.inj (Option.some.inj h)).2.symm
  · split at h
    · cases hnarrow : s32ton value f.reportSize with
      | none =>
        rw [hnarrow] at h
        cases h
      | some e =>
        rw [hnarrow] at h
        cases hback : snto32 e f.reportSize with
        | none =>
          simp only [Option.bind_eq_bind, Option.bind_some, hback] at h
          cases h
        | some v =>
          simp only [Option.bind_eq_bind, Option.bind_some, hback] at h
          split at h
          · exact .inl (Prod.mk.inj (Option.some.inj h)).2.symm
          · rename_i hsame
            obtain rfl := not_not.mp hsame
            exact .inr ⟨(Prod.mk.inj (Option.some.inj h)).2.symm, fun _ => ⟨e, hnarrow, hback⟩⟩
    · rename_i hunsigned
      exact .inr ⟨(Prod.mk.inj (Option.some.inj h)).2.symm, fun hsigned => absurd hsigned hunsigned⟩

/-- Fields with a sign have from 1 to 31 bits. -/
def Field.Narrow (f : Field) : Prop := f.signed = true → 0 < f.reportSize ∧ f.reportSize < 32

instance (f : Field) : Decidable f.Narrow :=
  inferInstanceAs (Decidable (f.signed = true → 0 < f.reportSize ∧ f.reportSize < 32))

structure Sound (r : Report) : Prop where
  size_le : ∀ f ∈ r.fields, f.reportSize ≤ 32
  length : ∀ f ∈ r.fields, f.value.length = f.reportCount
  accepted : ∀ f ∈ r.fields, f.signed = true → f.Narrow → ∀ v ∈ f.value, Accepted f.reportSize v
  ordered : r.fields.Pairwise fun f g => f.stop ≤ g.reportOffset
  stop_le : ∀ f ∈ r.fields, f.stop ≤ r.size

theorem Sound.registered (id : Nat) : Sound (hidRegisterReport id) := by
  have hnone : ∀ f, f ∉ (hidRegisterReport id).fields := fun f => List.not_mem_nil
  exact ⟨fun f hf => absurd hf (hnone f), fun f hf => absurd hf (hnone f),
    fun f hf => absurd hf (hnone f), List.Pairwise.nil, fun f hf => absurd hf (hnone f)⟩

theorem Sound.longer {r : Report} (h : Sound r) (n : Nat) : Sound { r with size := r.size + n } :=
  ⟨h.size_le, h.length, h.accepted, h.ordered, fun f hf => Nat.le_add_right_of_le (h.stop_le f hf)⟩

/-- A new field begins where the report ended. -/
theorem Sound.added {r : Report} (h : Sound r) {alloc : Bool} {items : Items} {flags : BitVec 32}
    (hsize : items.reportSize ≤ 32) : Sound (hidAddField r alloc items flags).2 := by
  unfold hidAddField
  split
  · exact h
  · dsimp only
    split
    · exact h.longer _
    · split
      · exact h.longer _
      · split
        · have hcases : ∀ f ∈ r.fields ++ [newField items flags r.size],
              f ∈ r.fields ∨ f = newField items flags r.size := by
            intro f hf
            rcases List.mem_append.mp hf with hf | hf
            · exact .inl hf
            · exact .inr (List.mem_singleton.mp hf)
          refine ⟨?_, ?_, ?_, ?_, ?_⟩
          · intro f hf
            rcases hcases f hf with hf | rfl
            · exact h.size_le f hf
            · exact hsize
          · intro f hf
            rcases hcases f hf with hf | rfl
            · exact h.length f hf
            · exact List.length_replicate
          · intro f hf hsigned hnarrow v hv
            rcases hcases f hf with hf | rfl
            · exact h.accepted f hf hsigned hnarrow v hv
            · obtain rfl := (List.mem_replicate.mp hv).2
              exact accepted_zero (hnarrow hsigned).1 (hnarrow hsigned).2
          · refine List.pairwise_append.mpr ⟨h.ordered, List.pairwise_singleton _ _, ?_⟩
            intro f hf g hg
            obtain rfl := List.mem_singleton.mp hg
            exact h.stop_le f hf
          · intro f hf
            rcases hcases f hf with hf | rfl
            · exact Nat.le_add_right_of_le (h.stop_le f hf)
            · show r.size + items.reportCount * items.reportSize ≤
                r.size + items.reportSize * items.reportCount
              exact Nat.le_of_eq (by rw [Nat.mul_comm items.reportCount])
        · exact h.longer _

/-- A value changes nothing about the places of the fields. -/
theorem Sound.assigned {r : Report} (h : Sound r) {k offset : Nat} {f f' : Field}
    {value : BitVec 32} {ret : Int} (hk : r.fields[k]? = some f)
    (hset : hidSetField f offset value = some (ret, f')) :
    Sound { r with fields := r.fields.set k f' } := by
  have hf := List.mem_of_getElem? hk
  have hlayout : f'.reportOffset = f.reportOffset ∧ f'.reportSize = f.reportSize ∧
      f'.reportCount = f.reportCount ∧ f'.signed = f.signed ∧ f'.value.length = f.value.length := by
    rcases hidSetField_cases hset with rfl | ⟨rfl, -⟩
    · exact ⟨rfl, rfl, rfl, rfl, rfl⟩
    · exact ⟨rfl, rfl, rfl, rfl, List.length_set⟩
  obtain ⟨hoffset, hsize, hcount, hsigned, hlength⟩ := hlayout
  have hstop : f'.stop = f.stop := by
    unfold Field.stop Field.place
    rw [hoffset, hsize, hcount]
  have hcases : ∀ g ∈ r.fields.set k f', g ∈ r.fields ∨ g = f' := fun g hg =>
    List.mem_or_eq_of_mem_set hg
  refine ⟨?_, ?_, ?_, ?_, ?_⟩
  · intro g hg
    rcases hcases g hg with hg | rfl
    · exact h.size_le g hg
    · rw [hsize]
      exact h.size_le f hf
  · intro g hg
    rcases hcases g hg with hg | rfl
    · exact h.length g hg
    · rw [hlength, hcount]
      exact h.length f hf
  · intro g hg hsign hnarrow v hv
    rcases hcases g hg with hg | rfl
    · exact h.accepted g hg hsign hnarrow v hv
    · have hnarrow' : f.Narrow := by
        intro _
        rw [← hsize]
        exact hnarrow hsign
      rw [hsize]
      rcases hidSetField_cases hset with rfl | ⟨rfl, haccepted⟩
      · exact h.accepted _ hf hsign hnarrow' v hv
      · rcases List.mem_or_eq_of_mem_set hv with hv | rfl
        · exact h.accepted f hf (hsigned ▸ hsign) hnarrow' v hv
        · exact haccepted hsign
  · have hmap : (r.fields.set k f').map (fun g => (g.reportOffset, g.stop)) =
        r.fields.map fun g => (g.reportOffset, g.stop) := by
      apply List.ext_getElem?
      intro i
      rw [List.getElem?_map, List.getElem?_map]
      by_cases hki : k = i
      · subst hki
        rw [List.getElem?_set_self (List.getElem?_eq_some_iff.mp hk).1, hk]
        exact congrArg some (Prod.ext hoffset hstop)
      · rw [List.getElem?_set_ne hki]
    have hordered := h.ordered
    rw [← List.pairwise_map (f := fun g : Field => (g.reportOffset, g.stop))
      (R := fun a b => a.2 ≤ b.1)] at hordered ⊢
    rw [hmap]
    exact hordered
  · intro g hg
    rcases hcases g hg with hg | rfl
    · exact h.stop_le g hg
    · rw [hstop]
      exact h.stop_le f hf

theorem Made.sound {r : Report} (h : Made r) : Sound r := by
  induction h with
  | registered id => exact Sound.registered id
  | added _ alloc items flags hsize ih => exact ih.added hsize
  | assigned _ k offset value hk hset ih => exact ih.assigned hk hset

theorem Sound.exists_value {r : Report} (h : Sound r) {f : Field} (hf : f ∈ r.fields) {n : Nat}
    (hn : n < f.reportCount) : ∃ v, f.value[n]? = some v ∧ v ∈ f.value := by
  have hlt : n < f.value.length := by rw [h.length f hf]; exact hn
  exact ⟨_, List.getElem?_eq_getElem hlt, List.getElem_mem hlt⟩

theorem encode_signed {f : Field} {n : Nat} {v : BitVec 32} (hget : f.value[n]? = some v)
    (hsigned : f.signed = true) : encode f n = s32ton v f.reportSize := by
  unfold encode
  rw [hget]
  exact if_pos hsigned

theorem encode_unsigned {f : Field} {n : Nat} {v : BitVec 32} (hget : f.value[n]? = some v)
    (hunsigned : ¬ f.signed = true) : encode f n = some v := by
  unfold encode
  rw [hget]
  exact if_neg hunsigned

theorem Sound.laid {r : Report} (h : Sound r) (hnarrow : ∀ f ∈ r.fields, f.Narrow) :
    Laid r.fields := by
  refine ⟨h.size_le, ?_, h.ordered⟩
  intro f hf n hn
  obtain ⟨v, hget, hmem⟩ := h.exists_value hf hn
  by_cases hsigned : f.signed = true
  · obtain ⟨e, he, -⟩ := h.accepted f hf hsigned (hnarrow f hf) v hmem
    exact ⟨e, (encode_signed hget hsigned).trans he⟩
  · exact ⟨v, encode_unsigned hget hsigned⟩

/-! ### The round trip -/

/-- A report without its number. -/
def payload (r : Report) (data : Buf) : Buf := if 0 < r.id then behind data 1 else data

theorem payload_numbered {r : Report} {data : Buf} (h : 0 < r.id) :
    payload r data = behind data 1 := if_pos h

theorem payload_unnumbered {r : Report} {data : Buf} (h : ¬ 0 < r.id) : payload r data = data :=
  if_neg h

theorem behind_withId {id : Nat} {data : Buf} : behind (withId id data) 1 = data := by
  funext k
  unfold behind withId
  rw [if_neg (by omega), Nat.add_sub_cancel_left]

/-- What a field can show of a value: without a sign it has only so many bits. -/
def Field.shown (f : Field) (v : BitVec 32) : BitVec 32 :=
  if f.signed then v else (v.setWidth f.reportSize).setWidth 32

theorem readValue_of_holds {r : Report} (h : Sound r) {f : Field} (hf : f ∈ r.fields)
    (hnarrow : f.Narrow) {data : Buf} (hholds : Holds f data) {n : Nat} (hn : n < f.reportCount) :
    readValue f data n = f.value[n]?.map f.shown := by
  obtain ⟨v, hget, hmem⟩ := h.exists_value hf hn
  have hsize := h.size_le f hf
  rw [hget]
  unfold readValue Field.shown
  by_cases hsigned : f.signed = true
  · obtain ⟨e, he, hback⟩ := h.accepted f hf hsigned hnarrow v hmem
    have hencode := (encode_signed hget hsigned).trans he
    have hfits := setWidth_of_fits fun k hk => getLsbD_s32ton he hk
    rw [extract_of_holds hholds hsize hn hencode, hfits, if_pos hsigned, hback]
    exact congrArg some (if_pos hsigned).symm
  · rw [extract_of_holds hholds hsize hn (encode_unsigned hget hsigned), if_neg hsigned]
    exact congrArg some (if_neg hsigned).symm

/-- Bytes are their bits. -/
theorem byte_eq {data data' : Buf} {k : Nat}
    (h : ∀ p, 8 * k ≤ p → bit data p = bit data' p) : data k = data' k := by
  apply UInt8.toBitVec_inj.mp
  apply BitVec.eq_of_getLsbD_eq
  intro j hj
  have hbit := h (8 * k + j) (by omega)
  unfold bit at hbit
  rwa [show (8 * k + j) / 8 = k by omega, show (8 * k + j) % 8 = j by omega] at hbit

/-- **The round trip of a report.**  Whatever fields the items of a descriptor lay out, side by
    side in the bytes of a report, and whatever `hid_set_field` makes of their values:
    `hid_output_report` writes a report from which `hid_input_field` reads every value of
    every field as it was, cut to the bits of the field where it has no sign; and the bytes
    behind the last field are left alone.  Fields with a sign have from 1 to 31 bits. -/
theorem hid_report_round_trip {r : Report} (h : Made r) (hnarrow : ∀ f ∈ r.fields, f.Narrow)
    (data : Buf) :
    ∃ out, hidOutputReport r data = some out ∧ (0 < r.id → out 0 = UInt8.ofNat r.id) ∧
      (∀ f ∈ r.fields, ∀ n, n < f.reportCount →
        readValue f (payload r out) n = f.value[n]?.map f.shown) ∧
      ∀ k, (∀ f ∈ r.fields, roundUp f.stop ≤ 8 * k) → payload r out k = payload r data k := by
  have hsound := h.sound
  obtain ⟨out, hrun, hholds, hkept⟩ := exists_outputFields (hsound.laid hnarrow) (payload r data)
  have hread : ∀ f ∈ r.fields, ∀ n, n < f.reportCount →
      readValue f out n = f.value[n]?.map f.shown := fun f hf n hn =>
    readValue_of_holds hsound hf (hnarrow f hf) (hholds f hf) hn
  have hbehind : ∀ k, (∀ f ∈ r.fields, roundUp f.stop ≤ 8 * k) → out k = payload r data k :=
    fun k hk => byte_eq fun p hp => hkept p (.inr fun f hf => Nat.le_trans (hk f hf) hp)
  unfold hidOutputReport
  by_cases hid : 0 < r.id
  · rw [payload_numbered hid] at hrun
    rw [if_pos hid, hrun]
    refine ⟨_, rfl, fun _ => rfl, ?_⟩
    rw [payload_numbered hid, behind_withId]
    exact ⟨hread, hbehind⟩
  · rw [payload_unnumbered hid] at hrun
    rw [if_neg hid]
    refine ⟨out, hrun, fun hpos => absurd hpos hid, ?_⟩
    rw [payload_unnumbered hid]
    exact ⟨hread, hbehind⟩

/-- Two numbers of 3 bits and, in the same byte and the next, one of 5 bits with a sign. -/
theorem hid_report_round_trip_signed :
    ∃ r out, r.id = 1 ∧ r.fields.map (fun f => (f.reportOffset, f.value)) =
        [(0, [5#32, 0#32]), (6, [-3#32])] ∧
      hidOutputReport r (fun _ => 0) = some out ∧ out 0 = 1 ∧
      ∀ f ∈ r.fields, ∀ n, n < f.reportCount →
        readValue f (payload r out) n = f.value[n]?.map f.shown := by
  have hplain := Made.added (Made.registered 1) true ⟨[1#32], 3, 2, 0#32, 7#32⟩ 2#32 (by decide)
  have hboth := hplain.added true ⟨[2#32], 5, 1, -16#32, 15#32⟩ 2#32 (by decide)
  have hfive := hboth.assigned 0 0 5#32 rfl rfl
  have hmade := hfive.assigned 1 0 (-3#32) rfl rfl
  obtain ⟨out, hrun, hid, hread, -⟩ := hid_report_round_trip hmade (by decide) (fun _ => 0)
  exact ⟨_, out, rfl, rfl, hrun, hid (by decide), hread⟩

end VmkLinux.Hid
