/-
  VmkLinux/Seq/Content.lean
  =========================
  **The records behind a file.**

  A reader of a file made of records sees one text, `content`: the records one after the
  other, up to the first that fails.  What the file has still to deliver (`SeqFile.rest`)
  is the unread part of the record in its buffer and the records behind it; every read
  takes the first bytes of it, however the reads cut it and however often the buffer had
  to be doubled, and a seek drops as much of the text as it should.
-/
import VmkLinux.Seq.Model

namespace VmkLinux.Seq

/-! ### Printing -/

/-- The first `count` bytes of the buffer are there. -/
def SeqFile.Filled (m : SeqFile) : Prop := ∃ data, m.buf = some data ∧ m.count ≤ data.length

/-- The first `count` bytes of the buffer. -/
def SeqFile.stored (m : SeqFile) : List UInt8 := (m.buf.getD []).take m.count

/-- `m'` still has the bytes of `m`. -/
structure Kept (m m' : SeqFile) : Prop where
  size : m'.size = m.size
  index : m'.index = m.index
  fromPos : m'.fromPos = m.fromPos
  buf : m'.buf.map (List.take m.count) = m.buf.map (List.take m.count)

theorem Kept.refl (m : SeqFile) : Kept m m := ⟨rfl, rfl, rfl, rfl⟩

theorem Kept.trans {m m₁ m₂ : SeqFile} (h₁ : Kept m m₁) (h₂ : Kept m₁ m₂)
    (hle : m.count ≤ m₁.count) : Kept m m₂ := by
  refine ⟨h₂.size.trans h₁.size, h₂.index.trans h₁.index, h₂.fromPos.trans h₁.fromPos, ?_⟩
  have hbuf := congrArg (Option.map (List.take m.count)) h₂.buf
  simp only [Option.map_map] at hbuf
  have htake : List.take m.count ∘ List.take m₁.count =
      (List.take m.count : List UInt8 → List UInt8) := by
    funext data
    simp [List.take_take, Nat.min_eq_left hle]
  rw [htake] at hbuf
  exact hbuf.trans h₁.buf

theorem SeqFile.Filled.wrote {m : SeqFile} (h : m.Filled) (out : List UInt8) :
    (m.wrote out).Filled := by
  obtain ⟨data, hbuf, hle⟩ := h
  refine ⟨data.take m.count ++ out, by simp [SeqFile.wrote, hbuf], ?_⟩
  simp [SeqFile.wrote, Nat.min_eq_left hle]

theorem SeqFile.Filled.stored_wrote {m : SeqFile} (h : m.Filled) (out : List UInt8) :
    (m.wrote out).stored = m.stored ++ out := by
  obtain ⟨data, hbuf, hle⟩ := h
  simp only [SeqFile.stored, SeqFile.wrote, hbuf, Option.map_some, Option.getD_some]
  refine List.take_of_length_le ?_
  simp [Nat.min_eq_left hle]

theorem SeqFile.Filled.kept_wrote {m : SeqFile} (h : m.Filled) (out : List UInt8) :
    Kept m (m.wrote out) := by
  obtain ⟨data, hbuf, hle⟩ := h
  refine ⟨rfl, rfl, rfl, ?_⟩
  simp [SeqFile.wrote, hbuf, Nat.min_eq_left hle]

theorem SeqFile.Filled.length_stored {m : SeqFile} (h : m.Filled) :
    m.stored.length = m.count := by
  obtain ⟨data, hbuf, hle⟩ := h
  simp [SeqFile.stored, hbuf, Nat.min_eq_left hle]

/-- What a print may do: all of it is there, or `count` says that it did not fit. -/
inductive Shown (m : SeqFile) (out : List UInt8) (m' : SeqFile) : Prop
  | fits (h : m.count + out.length < m.size) (hcount : m'.count = m.count + out.length)
      (hfilled : m'.Filled) (hstored : m'.stored = m.stored ++ out) (hkept : Kept m m')
  | full (h : m.size ≤ m.count + out.length) (hcount : m'.count = m.size) (hkept : Kept m m')

theorem Shown.kept {m m' : SeqFile} {out : List UInt8} (h : Shown m out m') : Kept m m' := by
  cases h with
  | fits _ _ _ _ hkept => exact hkept
  | full _ _ hkept => exact hkept

theorem SeqFile.Filled.fits_wrote {m : SeqFile} (hm : m.Filled) {out : List UInt8}
    (h : m.count + out.length < m.size) : Shown m out (m.wrote out) :=
  .fits h rfl (hm.wrote out) (hm.stored_wrote out) (hm.kept_wrote out)

/-- The loop of `seq_escape` has come to its end, or to that of the buffer. -/
theorem shown_wrote {m : SeqFile} (hm : m.Filled) {out more : List UInt8}
    (hle : m.count + out.length ≤ m.size) (hmore : m.count + out.length = m.size ∨ more = []) :
    Shown m (out ++ more) (m.wrote out) := by
  rcases Nat.lt_or_ge (m.count + (out ++ more).length) m.size with hlt | hge
  · rcases hmore with hfull | rfl
    · rw [List.length_append] at hlt
      omega
    · rw [List.append_nil] at hlt ⊢
      exact hm.fits_wrote hlt
  · refine .full hge ?_ (hm.kept_wrote out)
    show m.count + out.length = m.size
    rcases hmore with hfull | rfl
    · exact hfull
    · rw [List.append_nil] at hge
      omega

theorem escapeLoop_shown {m : SeqFile} (hm : m.Filled) (esc s : List UInt8) {out : List UInt8}
    (hle : m.count + out.length ≤ m.size) :
    Shown m (out ++ (Print.escape s esc).text) (escapeLoop m esc s out) := by
  induction s generalizing out with
  | nil => exact shown_wrote hm hle (.inr rfl)
  | cons c s ih =>
    have htext : (Print.escape (c :: s) esc).text
        = (if c ∉ esc then [c] else octal c) ++ (Print.escape s esc).text := rfl
    unfold escapeLoop
    split
    · rename_i hlt
      rw [htext]
      split
      · rw [← List.append_assoc]
        refine ih ?_
        rw [List.length_append, List.length_singleton]
        omega
      · have hlength : (octal c).length = 4 := rfl
        split
        · rw [← List.append_assoc]
          refine ih ?_
          rw [List.length_append]
          omega
        · refine .full ?_ rfl ⟨rfl, rfl, rfl, rfl⟩
          simp only [List.length_append]
          omega
    · exact shown_wrote hm hle (.inl (by omega))

/-- Each function prints all of its text, or fills the buffer. -/
theorem run_shown {m : SeqFile} (hm : m.Filled) (hle : m.count ≤ m.size) (p : Print) :
    Shown m p.text (p.run m) := by
  have hover : Kept m m.overflow := ⟨rfl, rfl, rfl, rfl⟩
  cases p with
  | puts s =>
    show Shown m s (seqPuts m s)
    unfold seqPuts
    split
    · rename_i hfits
      exact hm.fits_wrote hfits
    · rename_i hnot
      exact .full (Nat.le_of_not_lt hnot) rfl hover
  | printf s =>
    show Shown m s (seqPrintf m s)
    unfold seqPrintf
    split
    · rename_i hfits
      exact hm.fits_wrote hfits.2
    · rename_i hnot
      exact .full (by omega) rfl hover
  | putc c =>
    show Shown m [c] (seqPutc m c)
    unfold seqPutc
    split
    · rename_i hlt
      have hshown : Shown m ([c] ++ []) (m.wrote [c]) := shown_wrote hm hlt (.inr rfl)
      rwa [List.append_nil] at hshown
    · exact .full (by omega) (by omega) (.refl m)
  | escape s esc =>
    have hshown : Shown m ([] ++ (Print.escape s esc).text) (escapeLoop m esc s []) :=
      escapeLoop_shown hm esc s hle
    exact hshown

/-- Once the buffer is full it stays so. -/
theorem run_full {m : SeqFile} (hfull : m.count = m.size) (p : Print) :
    (p.run m).count = m.size ∧ Kept m (p.run m) := by
  have hover : Kept m m.overflow := ⟨rfl, rfl, rfl, rfl⟩
  cases p with
  | puts s =>
    show (seqPuts m s).count = m.size ∧ Kept m (seqPuts m s)
    rw [seqPuts, if_neg (by omega)]
    exact ⟨rfl, hover⟩
  | printf s =>
    show (seqPrintf m s).count = m.size ∧ Kept m (seqPrintf m s)
    rw [seqPrintf, if_neg (by omega)]
    exact ⟨rfl, hover⟩
  | putc c =>
    show (seqPutc m c).count = m.size ∧ Kept m (seqPutc m c)
    rw [seqPutc, if_neg (by omega)]
    exact ⟨hfull, .refl m⟩
  | escape s esc =>
    show (escapeLoop m esc s []).count = m.size ∧ Kept m (escapeLoop m esc s [])
    have hwrote : (m.wrote []).count = m.size ∧ Kept m (m.wrote []) := by
      refine ⟨hfull, rfl, rfl, rfl, ?_⟩
      cases hbuf : m.buf with
      | none => simp [SeqFile.wrote, hbuf]
      | some data => simp [SeqFile.wrote, hbuf, List.take_take]
    cases s with
    | nil => exact hwrote
    | cons c s =>
      rw [escapeLoop, if_neg (by simp [hfull])]
      exact hwrote

theorem opShow_full {m : SeqFile} (hfull : m.count = m.size) (prints : List Print) :
    (opShow m prints).count = m.size ∧ Kept m (opShow m prints) := by
  induction prints generalizing m with
  | nil => exact ⟨hfull, .refl m⟩
  | cons p prints ih =>
    obtain ⟨hcount, hkept⟩ := run_full hfull p
    obtain ⟨hcount', hkept'⟩ := ih (m := p.run m) (hcount.trans hkept.size.symm)
    exact ⟨hcount'.trans hkept.size, hkept.trans hkept' (by omega)⟩

/-- `show` prints the whole record, or `count` is the size of the buffer afterwards. -/
theorem opShow_shown {m : SeqFile} (hm : m.Filled) (hle : m.count ≤ m.size)
    (prints : List Print) : Shown m (text prints) (opShow m prints) := by
  induction prints generalizing m with
  | nil =>
    show Shown m [] m
    rcases Nat.lt_or_ge m.count m.size with hlt | hge
    · exact .fits hlt rfl hm (List.append_nil _).symm (.refl m)
    · exact .full hge (Nat.le_antisymm hle hge) (.refl m)
  | cons p prints ih =>
    have htext : text (p :: prints) = p.text ++ text prints := rfl
    have hshow : opShow m (p :: prints) = opShow (p.run m) prints := rfl
    rw [htext, hshow]
    cases run_shown hm hle p with
    | fits hfits hcount hfilled hstored hkept =>
      have hsize := hkept.size
      cases ih hfilled (by omega) with
      | fits hfits' hcount' hfilled' hstored' hkept' =>
        refine .fits ?_ ?_ hfilled' ?_ (hkept.trans hkept' (by omega))
        · rw [List.length_append]
          omega
        · rw [List.length_append]
          omega
        · rw [hstored', hstored, List.append_assoc]
      | full hover hcount' hkept' =>
        refine .full ?_ (hcount'.trans hsize) (hkept.trans hkept' (by omega))
        rw [List.length_append]
        omega
    | full hover hcount hkept =>
      obtain ⟨hcount', hkept'⟩ := opShow_full (m := p.run m) (hcount.trans hkept.size.symm) prints
      refine .full ?_ (hcount'.trans hkept.size) (hkept.trans hkept' (by omega))
      rw [List.length_append]
      omega

/-! ### What is left to read -/

/-- The text of the file: the records up to the first that fails. -/
def content : List Item → List UInt8
  | [] => []
  | .err _ :: _ => []
  | .record prints ret :: items => if ret = 0 then text prints ++ content items else []

/-- What the file has still to deliver. -/
def SeqFile.rest (items : List Item) (m : SeqFile) : List UInt8 :=
  if m.count = 0 then content (items.drop m.index)
  else ((m.buf.getD []).drop m.fromPos).take m.count ++ content (items.drop (m.index + 1))

/-- Between two calls: the part of a record that has not been read yet is in the buffer. -/
structure SeqFile.Ready (m : SeqFile) : Prop where
  size_pos : m.buf.isSome = true → 0 < m.size
  held : m.count ≠ 0 → ∃ data, m.buf = some data ∧ m.fromPos + m.count ≤ data.length

/-- The bytes that a read has delivered. -/
def received : Except Int (List UInt8) → List UInt8
  | .ok data => data
  | .error _ => []

theorem drop_of_getElem? {items : List Item} {k : Nat} {item : Item} (h : items[k]? = some item) :
    items.drop k = item :: items.drop (k + 1) := by
  obtain ⟨hlt, rfl⟩ := List.getElem?_eq_some_iff.mp h
  exact List.drop_eq_getElem_cons hlt

/-- A copy within the bytes that are there. -/
theorem copyOut_eq {m : SeqFile} {off n : Nat} {data : List UInt8} (hbuf : m.buf = some data)
    (hle : off + n ≤ data.length) : copyOut m off n = some ((data.drop off).take n) := by
  rw [copyOut, hbuf]
  exact if_pos hle

theorem done_spec (f : File) (m : SeqFile) (copied : List UInt8) (err : Int) :
    received (done f m copied err).1 = copied ∧ (done f m copied err).2.m = m ∧
      (done f m copied err).2.fPos = f.fPos + copied.length := by
  unfold done
  split
  · rename_i hnil
    refine ⟨?_, rfl, by simp [hnil]⟩
    rw [hnil]
    dsimp only
    split
    · rfl
    · rfl
  · exact ⟨rfl, rfl, rfl⟩

/-- A record that is taken back leaves what was there before. -/
theorem Kept.restore {m m' : SeqFile} (h : Kept m m') (hm : m.Filled) :
    SeqFile.Filled { m' with count := m.count } ∧
      SeqFile.stored { m' with count := m.count } = m.stored := by
  obtain ⟨data, hbuf, hle⟩ := hm
  have hkept := h.buf
  rw [hbuf, Option.map_some] at hkept
  obtain ⟨data', hbuf', htake⟩ := Option.map_eq_some_iff.mp hkept
  constructor
  · refine ⟨data', hbuf', ?_⟩
    have hlength := congrArg List.length htake
    simp only [List.length_take] at hlength
    show m.count ≤ data'.length
    omega
  · simp [SeqFile.stored, hbuf, hbuf', htake]

theorem Kept.isSome {m m' : SeqFile} (h : Kept m m') (hm : m.buf.isSome = true) :
    m'.buf.isSome = true := by
  obtain ⟨data, hbuf⟩ := Option.isSome_iff_exists.mp hm
  have hkept := h.buf
  rw [hbuf, Option.map_some] at hkept
  obtain ⟨data', hbuf', -⟩ := Option.map_eq_some_iff.mp hkept
  rw [hbuf']
  rfl

theorem SeqFile.Filled.isSome {m : SeqFile} (h : m.Filled) : m.buf.isSome = true := by
  obtain ⟨data, hbuf, -⟩ := h
  rw [hbuf]
  rfl

theorem filled_of_empty {m : SeqFile} (hcount : m.count = 0) (hbuf : m.buf.isSome = true) :
    m.Filled := by
  obtain ⟨data, hdata⟩ := Option.isSome_iff_exists.mp hbuf
  exact ⟨data, hdata, by omega⟩

/-- How the records that the loop at `Fill` has added go with those to come. -/
structure Added (its : List Item) (m : SeqFile) (pos : Nat) (m' : SeqFile) (pos' : Nat) :
    Prop where
  filled : m'.Filled
  fits : m'.count < m'.size
  more : m.count ≤ m'.count
  content : ∃ k, pos' = pos + k ∧ m'.stored ++ content (its.drop k) = m.stored ++ content its

theorem fillLoop_added (size : Nat) (its : List Item) {m m' : SeqFile} {pos pos' : Nat} {err : Int}
    (hm : m.Filled) (hfits : m.count < m.size) (h : fillLoop size its m pos = (m', pos', err)) :
    Added its m pos m' pos' := by
  have hsame : Added its m pos m pos := ⟨hm, hfits, Nat.le_refl _, 0, rfl, rfl⟩
  induction its generalizing m pos with
  | nil =>
    simp only [fillLoop, Prod.mk.injEq] at h
    obtain ⟨rfl, rfl, rfl⟩ := h
    exact hsame
  | cons item its ih =>
    cases item with
    | err e =>
      have hpair : fillLoop size (.err e :: its) m pos = (m, pos, e) ∨
          fillLoop size (.err e :: its) m pos = (m, pos, 0) := by
        rw [fillLoop]
        split
        · exact .inl rfl
        · exact .inr rfl
      rw [h] at hpair
      simp only [Prod.mk.injEq] at hpair
      obtain ⟨rfl, rfl, -⟩ | ⟨rfl, rfl, -⟩ := hpair
      · exact hsame
      · exact hsame
    | record prints ret =>
      have hshown := opShow_shown hm (Nat.le_of_lt hfits) prints
      rw [fillLoop] at h
      dsimp only at h
      split at h
      · split at h
        · have hkept := hshown.kept
          obtain ⟨hfilled, hstored⟩ := hkept.restore hm
          simp only [Prod.mk.injEq] at h
          obtain ⟨rfl, rfl, rfl⟩ := h
          refine ⟨hfilled, ?_, Nat.le_refl _, 0, rfl, by rw [hstored]; rfl⟩
          rw [hkept.size]
          exact hfits
        · rename_i hgood
          rw [not_or, not_not] at hgood
          obtain ⟨hret, hroom⟩ := hgood
          cases hshown with
          | full _ hcount hkept => exact absurd (hcount.trans hkept.size.symm) hroom
          | fits hlt hcount hfilled hstored hkept =>
            have hsize := hkept.size
            have hfits' : (opShow m prints).count < (opShow m prints).size := by omega
            obtain ⟨hfilled', hfits'', hmore, k, rfl, hcontent⟩ :=
              ih hfilled hfits' h ⟨hfilled, hfits', Nat.le_refl _, 0, rfl, rfl⟩
            refine ⟨hfilled', hfits'', by omega, k + 1, by omega, ?_⟩
            rw [List.drop_succ_cons, hcontent, hstored, VmkLinux.Seq.content, if_pos hret,
              List.append_assoc]
      · simp only [Prod.mk.injEq] at h
        obtain ⟨rfl, rfl, rfl⟩ := h
        exact hsame

/-- The first record is shown whole, or the loop stops at its error. -/
theorem firstLoop_spec {a : Alloc} (hgrow : ∀ n, a.grow n = true) (prints : List Print) (ret : Int)
    (fuel : Nat) {m : SeqFile} (hcount : m.count = 0) (hbuf : m.buf.isSome = true)
    (hsize : 0 < m.size) (hfuel : (text prints).length + 2 ≤ fuel + m.size) (hpos : 0 < fuel) :
    (ret = 0 ∧ ∃ m', firstLoop a prints ret fuel m = some (.shown m') ∧ m'.Filled ∧
      m'.stored = text prints ∧ m'.count < m'.size ∧ m'.index = m.index) ∨
    (ret ≠ 0 ∧ ∃ m', firstLoop a prints ret fuel m = some (.stopped m' ret) ∧ m'.count = 0 ∧
      m'.buf.isSome = true ∧ 0 < m'.size ∧ m'.index = m.index) := by
  induction fuel generalizing m with
  | zero => omega
  | succ fuel ih =>
    have hm := filled_of_empty hcount hbuf
    have hshown := opShow_shown hm (by omega) prints
    have hkept := hshown.kept
    rw [firstLoop]
    by_cases hret : ret = 0
    · rw [if_neg (not_not.mpr hret)]
      cases hshown with
      | fits hlt hcount' hfilled hstored _ =>
        have hnil : m.stored = [] := List.length_eq_zero_iff.mp (hm.length_stored.trans hcount)
        have hroom : (opShow m prints).count < (opShow m prints).size := by
          rw [hkept.size]
          omega
        rw [if_pos hroom]
        exact .inl ⟨hret, _, rfl, hfilled, by rw [hstored, hnil, List.nil_append], hroom,
          hkept.index⟩
      | full hover hcount' _ =>
        rw [if_neg (by rw [hkept.size]; omega), hgrow, if_pos rfl]
        have hdouble := ih (m := { opShow m prints with
          buf := some [], size := (opShow m prints).size * 2, count := 0 }) rfl rfl
          (by rw [hkept.size]; dsimp only; omega) (by rw [hkept.size]; dsimp only; omega) (by omega)
        simp only [hkept.index] at hdouble ⊢
        exact hdouble
    · rw [if_pos hret]
      exact .inr ⟨hret, _, rfl, rfl, hkept.isSome hbuf, by dsimp only; rw [hkept.size]; exact hsize,
        hkept.index⟩

/-- Whether every record has some text. -/
def NonEmpty (items : List Item) : Prop :=
  ∀ prints ret, Item.record prints ret ∈ items → text prints ≠ []

/-- What `seq_read` does from the first record on, with `copied` bytes from before. -/
structure Continues (items : List Item) (f : File) (index size : Nat) (copied : List UInt8)
    (r : Except Int (List UInt8)) (f' : File) (data : List UInt8) : Prop where
  received : received r = copied ++ data
  rest : data ++ f'.m.rest items = content (items.drop index)
  le : data.length ≤ size
  fPos : f'.fPos = f.fPos + (copied ++ data).length
  ready : f'.m.Ready
  ends : NonEmpty items → 0 < size → data = [] → content (items.drop index) = []

/-- `seq_read` stops at `Done`, and the records are left for the next call. -/
theorem continues_done {items : List Item} {f : File} {m : SeqFile} {size : Nat}
    {copied : List UInt8} (err : Int) (hcount : m.count = 0) (hsize : 0 < m.size)
    (hends : content (items.drop m.index) = []) :
    Continues items f m.index size copied (done f m copied err).1 (done f m copied err).2 [] := by
  obtain ⟨hreceived, hm, hfPos⟩ := done_spec f m copied err
  refine ⟨by simp [hreceived], ?_, Nat.zero_le _, by simp [hfPos], ?_, fun _ _ _ => hends⟩
  · rw [hm, SeqFile.rest, if_pos hcount]
    rfl
  · rw [hm]
    exact ⟨fun _ => hsize, fun hne => absurd hcount hne⟩

theorem copyRecords_continues {items : List Item} {f : File} {m : SeqFile} {index pos : Nat}
    (size : Nat) (copied : List UInt8) (err : Int) (hm : m.Filled) (hroom : m.count < m.size)
    (hcontent : m.stored ++ content (items.drop (pos + 1)) = content (items.drop index))
    (hends : NonEmpty items → 0 < m.count) :
    ∃ r f' data, copyRecords f m pos err size copied = some (r, f') ∧
      Continues items f index size copied r f' data := by
  obtain ⟨bytes, hbuf, hlength⟩ := hm
  generalize hmin : min m.count size = n
  have hn : n ≤ m.count := by omega
  have hstored : m.stored = bytes.take m.count := by rw [SeqFile.stored, hbuf, Option.getD_some]
  have hcopy : copyOut m 0 n = some (bytes.take n) := copyOut_eq hbuf (by omega)
  let m₁ := { m with count := m.count - n }
  let m₂ := if m₁.count ≠ 0 then { m₁ with fromPos := n, index := pos }
    else { m₁ with index := pos + 1 }
  refine ⟨(done f m₂ (copied ++ bytes.take n) err).1, (done f m₂ (copied ++ bytes.take n) err).2,
    bytes.take n, ?_, ?_⟩
  · rw [copyRecords, hmin, hcopy]
  obtain ⟨hreceived, hfile, hfPos⟩ := done_spec f m₂ (copied ++ bytes.take n) err
  have hrest : bytes.take n ++ m₂.rest items = content (items.drop index) := by
    rw [← hcontent, hstored]
    by_cases hzero : m₁.count = 0
    · have hall : n = m.count := by
        have hsub : m.count - n = 0 := hzero
        omega
      have hm₂ : m₂ = { m₁ with index := pos + 1 } := if_neg (not_not.mpr hzero)
      rw [hm₂, SeqFile.rest, if_pos hzero, hall]
    · have hm₂ : m₂ = { m₁ with fromPos := n, index := pos } := if_pos hzero
      rw [hm₂, SeqFile.rest, if_neg hzero]
      show _ ++ ((((m.buf).getD []).drop n).take (m.count - n) ++ _) = _
      rw [hbuf, Option.getD_some, ← List.append_assoc]
      congr 1
      have hsplit := List.take_append_drop n (bytes.take m.count)
      rw [List.take_take, Nat.min_eq_left hn, List.drop_take] at hsplit
      exact hsplit
  refine ⟨hreceived, by rw [hfile]; exact hrest, ?_, hfPos, ?_, fun hne hpos hdata => ?_⟩
  · rw [List.length_take]
    omega
  · rw [hfile]
    by_cases hzero : m₁.count = 0
    · have hm₂ : m₂ = { m₁ with index := pos + 1 } := if_neg (not_not.mpr hzero)
      rw [hm₂]
      exact ⟨fun _ => Nat.zero_lt_of_lt hroom, fun hne => absurd hzero hne⟩
    · have hm₂ : m₂ = { m₁ with fromPos := n, index := pos } := if_pos hzero
      rw [hm₂]
      refine ⟨fun _ => Nat.zero_lt_of_lt hroom, fun _ => ⟨bytes, hbuf, ?_⟩⟩
      show n + (m.count - n) ≤ bytes.length
      omega
  · have hlen := congrArg List.length hdata
    rw [List.length_take, List.length_nil] at hlen
    have hcount := hends hne
    omega

theorem readRecords_continues (items : List Item) {a : Alloc} (hgrow : ∀ n, a.grow n = true)
    (f : File) {m : SeqFile} (size : Nat) (copied : List UInt8) (hcount : m.count = 0)
    (hbuf : m.buf.isSome = true) (hsize : 0 < m.size) :
    ∃ r f' data, readRecords items a f m size copied = some (r, f') ∧
      Continues items f m.index size copied r f' data := by
  have hzero : { m with count := 0 } = m := by rw [← hcount]
  unfold readRecords
  cases hitem : items[m.index]? with
  | none =>
    refine ⟨_, _, [], rfl, ?_⟩
    rw [hzero]
    refine continues_done 0 hcount hsize ?_
    rw [List.drop_eq_nil_of_le (List.getElem?_eq_none_iff.mp hitem)]
    rfl
  | some item =>
    have hdrop := drop_of_getElem? hitem
    cases item with
    | err e =>
      refine ⟨_, _, [], rfl, ?_⟩
      rw [hzero]
      exact continues_done e hcount hsize (by rw [hdrop]; rfl)
    | record prints ret =>
      dsimp only
      rcases firstLoop_spec hgrow prints ret ((text prints).length + 2) hcount hbuf hsize
        (by omega) (by omega) with ⟨rfl, m₁, hfirst, hfilled, hstored, hroom, hindex⟩ |
          ⟨hret, m₁, hfirst, hcount', hbuf', hsize', hindex⟩
      · rcases hfill : fillLoop size (items.drop (m.index + 1)) m₁ m.index with ⟨m₂, pos, err⟩
        obtain ⟨hfilled', hroom', hmore, k, rfl, hcontent⟩ :=
          fillLoop_added size (items.drop (m.index + 1)) hfilled hroom hfill
        rw [hfirst]
        dsimp only
        rw [hindex, hfill]
        refine copyRecords_continues size copied err hfilled' hroom' ?_ fun hne => ?_
        · rw [List.drop_drop, hstored, Nat.add_right_comm] at hcontent
          rw [hdrop, content, if_pos rfl, ← hcontent]
        · have htext := hne prints 0 (List.mem_of_getElem? hitem)
          have hlength := hfilled.length_stored
          rw [hstored] at hlength
          have hpos := List.length_pos_iff.mpr htext
          show 0 < m₂.count
          omega
      · rw [hfirst]
        refine ⟨_, _, [], rfl, ?_⟩
        rw [← hindex]
        refine continues_done ret hcount' hsize' ?_
        rw [hindex, hdrop]
        exact if_neg hret

/-- The file between two calls stands where `f_pos` says. -/
structure File.Sound (items : List Item) (f : File) : Prop where
  ready : f.m.Ready
  rest : f.m.rest items = (content items).drop f.fPos

/-- What a read delivers is the next part of the text. -/
structure Delivers (items : List Item) (a : Alloc) (f : File) (size : Nat)
    (r : Except Int (List UInt8)) (f' : File) : Prop where
  rest : received r ++ f'.m.rest items = f.m.rest items
  le : (received r).length ≤ size
  fPos : f'.fPos = f.fPos + (received r).length
  ready : f'.m.Ready
  ends : NonEmpty items → 0 < size → received r = [] → a.page = true ∨ r = .ok [] →
    f.m.rest items = []

/-- The file as `seq_read` finds it: it has a buffer, a new one or the one from before, or
    there is none to be had. -/
theorem grabBuf_cases (a : Alloc) {m : SeqFile} (hm : m.Ready) :
    (grabBuf a m).Ready ∧ (grabBuf a m).count = m.count ∧ (grabBuf a m).index = m.index ∧
      ∀ items, (grabBuf a m).rest items = m.rest items := by
  cases hbuf : m.buf with
  | some data =>
    have hsame : grabBuf a m = m := by rw [grabBuf, hbuf]; rfl
    rw [hsame]
    exact ⟨hm, rfl, rfl, fun _ => rfl⟩
  | none =>
    have hzero : m.count = 0 := by
      by_contra hne
      obtain ⟨data, hdata, -⟩ := hm.held hne
      rw [hbuf] at hdata
      cases hdata
    have hnew : grabBuf a m =
        { m with size := pageSize, buf := if a.page then some [] else none } := by
      rw [grabBuf, hbuf]
      rfl
    rw [hnew]
    refine ⟨⟨fun _ => Nat.succ_pos _, fun hne => absurd hzero hne⟩, rfl, rfl, fun items => ?_⟩
    rw [SeqFile.rest, SeqFile.rest, if_pos hzero, if_pos hzero]

/-- The part of a record that is in the buffer is taken in two pieces. -/
theorem take_append_take (bytes : List UInt8) (off : Nat) {n count : Nat} (h : n ≤ count) :
    (bytes.drop off).take n ++ (bytes.drop (off + n)).take (count - n)
      = (bytes.drop off).take count := by
  have hsplit := List.take_append_drop n ((bytes.drop off).take count)
  rw [List.take_take, Nat.min_eq_left h, List.drop_take, List.drop_drop] at hsplit
  exact hsplit

theorem flush_spec {m : SeqFile} {bytes : List UInt8} {n : Nat} (items : List Item)
    (hm : m.Ready) (hcount : m.count ≠ 0) (hbytes : m.buf = some bytes)
    (hheld : m.fromPos + m.count ≤ bytes.length) (hn : n ≤ m.count) :
    (bytes.drop m.fromPos).take n ++ (flush m n).rest items = m.rest items ∧
      (flush m n).Ready ∧ (flush m n).buf = m.buf ∧ (flush m n).count = m.count - n := by
  have hsize : 0 < m.size := hm.size_pos (by rw [hbytes]; rfl)
  have hrest : m.rest items =
      (bytes.drop m.fromPos).take m.count ++ content (items.drop (m.index + 1)) := by
    rw [SeqFile.rest, if_neg hcount, hbytes, Option.getD_some]
  rw [hrest]
  by_cases hzero : m.count - n = 0
  · have hflush : flush m n = { m with
        count := m.count - n, fromPos := m.fromPos + n, index := m.index + 1 } := if_pos hzero
    have hall : n = m.count := by omega
    rw [hflush, SeqFile.rest, if_pos hzero, hall]
    exact ⟨rfl, ⟨fun _ => hsize, fun hne => absurd (Nat.sub_self _) hne⟩, rfl, rfl⟩
  · have hflush : flush m n = { m with count := m.count - n, fromPos := m.fromPos + n } :=
      if_neg hzero
    rw [hflush, SeqFile.rest, if_neg hzero]
    refine ⟨?_, ⟨fun _ => hsize, fun _ => ⟨bytes, hbytes, ?_⟩⟩, rfl, rfl⟩
    · dsimp only
      rw [hbytes, Option.getD_some, ← List.append_assoc, take_append_take bytes m.fromPos hn]
    · show m.fromPos + n + (m.count - n) ≤ bytes.length
      omega

theorem seqRead_delivers (items : List Item) {a : Alloc} (hgrow : ∀ n, a.grow n = true) {f : File}
    (hf : f.m.Ready) (size : Nat) :
    ∃ r f', seqRead items a f size = some (r, f') ∧ Delivers items a f size r f' := by
  obtain ⟨hready, -, -, hrest⟩ := grabBuf_cases a hf
  generalize hm : grabBuf a f.m = m at hready hrest
  unfold seqRead
  rw [hm]
  dsimp only
  by_cases hnone : m.buf.isNone = true
  · rw [if_pos hnone]
    obtain ⟨hreceived, hfile, hfPos⟩ := done_spec f m [] (-enomem)
    refine ⟨(done f m [] (-enomem)).1, (done f m [] (-enomem)).2, rfl, ?_, ?_, ?_, ?_,
      fun _ _ _ hok => ?_⟩
    · rw [hreceived, hfile, hrest]
      rfl
    · rw [hreceived]
      exact Nat.zero_le _
    · rw [hreceived, hfPos]
    · rw [hfile]
      exact hready
    · rcases hok with hpage | hok
      · rw [← hm, grabBuf] at hnone
        split at hnone
        · rename_i hsome
          rw [Option.isNone_iff_eq_none.mp hnone] at hsome
          cases hsome
        · cases hnone
      · cases hok
  · rw [if_neg hnone]
    have hbuf : m.buf.isSome = true := by
      rw [Bool.not_eq_true] at hnone
      rw [← Option.not_isNone, hnone]
      rfl
    have hsize := hready.size_pos hbuf
    by_cases hcount : m.count = 0
    · rw [if_pos hcount]
      obtain ⟨r, f', data, hread, hcont⟩ :=
        readRecords_continues items hgrow f size [] hcount hbuf hsize
      obtain ⟨hreceived, hrest', hle, hfPos, hready', hends⟩ := hcont
      rw [List.nil_append] at hreceived hfPos
      have hindex : content (items.drop m.index) = f.m.rest items := by
        rw [← hrest, SeqFile.rest, if_pos hcount]
      refine ⟨r, f', hread, ?_, ?_, ?_, hready', fun hne hpos hnil _ => ?_⟩
      · rw [hreceived, hrest', hindex]
      · rw [hreceived]
        exact hle
      · rw [hreceived, hfPos]
      · rw [← hindex]
        exact hends hne hpos (hreceived.symm.trans hnil)
    · rw [if_neg hcount]
      obtain ⟨bytes, hbytes, hheld⟩ := hready.held hcount
      generalize hmin : min m.count size = n
      have hn : n ≤ m.count := by omega
      rw [copyOut_eq hbytes (by omega)]
      dsimp only
      have hlength : ((bytes.drop m.fromPos).take n).length = n := by
        rw [List.length_take, List.length_drop]
        omega
      obtain ⟨hflush, hready', hbuf', hcount'⟩ :=
        flush_spec items hready hcount hbytes hheld hn
      rw [hrest] at hflush
      generalize hpiece : (bytes.drop m.fromPos).take n = piece at hflush hlength
      have hnil : 0 < size → piece ≠ [] := by
        rintro hpos rfl
        rw [List.length_nil] at hlength
        omega
      by_cases hlast : size - n = 0
      · rw [if_pos hlast]
        obtain ⟨hreceived, hfile, hfPos⟩ := done_spec f (flush m n) piece 0
        refine ⟨(done f (flush m n) piece 0).1, (done f (flush m n) piece 0).2, rfl, ?_, ?_, ?_, ?_,
          fun _ hpos hempty _ => ?_⟩
        · rw [hreceived, hfile, hflush]
        · rw [hreceived]
          omega
        · rw [hreceived, hfPos]
        · rw [hfile]
          exact hready'
        · exact absurd (hreceived.symm.trans hempty) (hnil hpos)
      · rw [if_neg hlast]
        have hempty : (flush m n).count = 0 := by omega
        have hrestart : (flush m n).rest items = content (items.drop (flush m n).index) :=
          if_pos hempty
        obtain ⟨r, f', data, hread, hcont⟩ := readRecords_continues items hgrow f
          (size - n) piece hempty (hbuf'.symm ▸ hbuf) (hready'.size_pos (hbuf'.symm ▸ hbuf))
        obtain ⟨hreceived, hrest', hle, hfPos, hready'', -⟩ := hcont
        refine ⟨r, f', hread, ?_, ?_, ?_, hready'', fun _ hpos hnone _ => ?_⟩
        · rw [hreceived, List.append_assoc, hrest', ← hrestart, hflush]
        · rw [hreceived, List.length_append]
          omega
        · rw [hreceived, hfPos]
        · have hboth := List.append_eq_nil_iff.mp (hreceived.symm.trans hnone)
          exact absurd hboth.1 (hnil hpos)

/-! ### Seeking -/

theorem traverseLoop_spec (offset : Nat) (its : List Item) {m m' : SeqFile} {pos : Nat}
    {r : Option Int} (hcount : m.count = 0) (hbuf : m.buf.isSome = true) (hsize : 0 < m.size)
    (hpos : pos < offset) (h : traverseLoop offset its pos m = (m', r)) :
    m'.size = m.size ∧ (r = some 0 → m'.Ready ∧
      ∀ items, items.drop m.index = its → m'.rest items = (content its).drop (offset - pos)) := by
  induction its generalizing m pos with
  | nil =>
    obtain ⟨rfl, rfl⟩ := Prod.mk.inj h
    refine ⟨rfl, fun _ => ⟨⟨fun _ => hsize, fun hne => absurd hcount hne⟩, fun items hits => ?_⟩⟩
    rw [SeqFile.rest, if_pos hcount, hits, content, List.drop_nil]
  | cons item its ih =>
    cases item with
    | err e =>
      obtain ⟨rfl, rfl⟩ := Prod.mk.inj h
      refine ⟨rfl, fun _ => ⟨⟨fun _ => hsize, fun hne => absurd hcount hne⟩, fun items hits => ?_⟩⟩
      rw [SeqFile.rest, if_pos hcount, hits, content, List.drop_nil]
    | record prints ret =>
      have hm := filled_of_empty hcount hbuf
      have hshown := opShow_shown hm (by omega) prints
      have hkept := hshown.kept
      have hsize' := hkept.size
      rw [traverseLoop] at h
      by_cases hret : ret = 0
      · rw [if_neg (not_not.mpr hret)] at h
        cases hshown with
        | full hover hcount' _ =>
          rw [if_pos (hcount'.trans hsize'.symm)] at h
          obtain ⟨rfl, rfl⟩ := Prod.mk.inj h
          exact ⟨hsize', fun hr => by cases hr⟩
        | fits hlt hcount' hfilled hstored _ =>
          obtain ⟨bytes, hbytes, hheld⟩ := hfilled
          have hnil : m.stored = [] := List.length_eq_zero_iff.mp (hm.length_stored.trans hcount)
          have htext : bytes.take (opShow m prints).count = text prints := by
            rw [hnil, List.nil_append, SeqFile.stored, hbytes, Option.getD_some] at hstored
            exact hstored
          rw [hcount, Nat.zero_add] at hcount'
          have hnext : ∀ items : List Item, items.drop m.index = .record prints ret :: its →
              items.drop ((opShow m prints).index + 1) = its := by
            intro items hits
            rw [hkept.index, ← List.drop_drop, hits]
            rfl
          have hcontent : content (.record prints ret :: its) = text prints ++ content its :=
            if_pos hret
          have hpast : ∀ k, (text prints).length ≤ k → (text prints ++ content its).drop k
              = (content its).drop (k - (text prints).length) := by
            intro k hk
            rw [List.drop_append, List.drop_eq_nil_of_le hk, List.nil_append]
          rw [if_neg (by omega)] at h
          rw [hcontent]
          by_cases hinside : offset < pos + (opShow m prints).count
          · rw [if_pos hinside] at h
            obtain ⟨rfl, rfl⟩ := Prod.mk.inj h
            refine ⟨hsize', fun _ => ⟨⟨fun _ => ?_, fun _ => ⟨bytes, hbytes, ?_⟩⟩,
              fun items hits => ?_⟩⟩
            · show 0 < (opShow m prints).size
              omega
            · show offset - pos + ((opShow m prints).count - (offset - pos)) ≤ bytes.length
              omega
            · rw [SeqFile.rest, if_neg (by dsimp only; omega)]
              dsimp only
              rw [hbytes, Option.getD_some, hnext items hits,
                List.drop_append_of_le_length (by omega), ← htext, List.drop_take]
          · rw [if_neg hinside] at h
            by_cases hexact : pos + (opShow m prints).count = offset
            · rw [if_pos hexact] at h
              obtain ⟨rfl, rfl⟩ := Prod.mk.inj h
              refine ⟨hsize', fun _ => ⟨⟨fun _ => ?_, fun hne => absurd rfl hne⟩,
                fun items hits => ?_⟩⟩
              · show 0 < (opShow m prints).size
                omega
              · rw [SeqFile.rest, if_pos rfl]
                dsimp only
                rw [hnext items hits, hpast _ (by omega),
                  show offset - pos - (text prints).length = 0 by omega]
                rfl
            · rw [if_neg hexact] at h
              obtain ⟨hsize'', hrest⟩ := ih (m := { opShow m prints with
                count := 0, index := (opShow m prints).index + 1 }) rfl (hkept.isSome hbuf)
                (by dsimp only; omega) (by omega) h
              refine ⟨hsize''.trans hsize', fun hr => ⟨(hrest hr).1, fun items hits => ?_⟩⟩
              rw [(hrest hr).2 items (hnext items hits), hpast _ (by omega)]
              congr 1
              omega
      · rw [if_pos hret] at h
        obtain ⟨rfl, rfl⟩ := Prod.mk.inj h
        exact ⟨hsize', fun hr => absurd (Option.some.inj hr) hret⟩

theorem traverse_spec {items : List Item} {a : Alloc} {m m' : SeqFile} {offset : Nat} {e : Int}
    (hsize : m.buf.isSome = true → 0 < m.size) (h : traverse items a m offset = (m', e)) :
    (m'.buf.isSome = true → 0 < m'.size) ∧
      (e = 0 → m'.Ready ∧ m'.rest items = (content items).drop offset) := by
  unfold traverse at h
  dsimp only at h
  split at h
  · rename_i hzero
    obtain ⟨rfl, rfl⟩ := Prod.mk.inj h
    refine ⟨hsize, fun _ => ⟨⟨hsize, fun hne => absurd rfl hne⟩, ?_⟩⟩
    rw [SeqFile.rest, if_pos rfl, hzero]
    rfl
  · rename_i hpos
    have hready : SeqFile.Ready { m with index := 0, count := 0, fromPos := 0 } :=
      ⟨hsize, fun hne => absurd rfl hne⟩
    obtain ⟨hgrab, hcount, hindex, -⟩ := grabBuf_cases a hready
    generalize grabBuf a { m with index := 0, count := 0, fromPos := 0 } = m₀
      at h hgrab hcount hindex
    split at h
    · obtain ⟨rfl, rfl⟩ := Prod.mk.inj h
      exact ⟨hgrab.size_pos, fun hzero => absurd hzero (by decide)⟩
    · rename_i hnone
      have hbuf : m₀.buf.isSome = true := by
        rw [Bool.not_eq_true] at hnone
        rw [← Option.not_isNone, hnone]
        rfl
      rcases hloop : traverseLoop offset items 0 m₀ with ⟨m₁, r⟩
      obtain ⟨hsize₁, hrest⟩ := traverseLoop_spec offset items hcount hbuf (hgrab.size_pos hbuf)
        (Nat.pos_of_ne_zero hpos) hloop
      have hpos₁ : 0 < m₁.size := by
        rw [hsize₁]
        exact hgrab.size_pos hbuf
      rw [hloop] at h
      cases r with
      | some err =>
        obtain ⟨rfl, rfl⟩ := Prod.mk.inj h
        refine ⟨fun _ => hpos₁, fun hzero => ?_⟩
        obtain ⟨hready₁, hdrop⟩ := hrest (congrArg some hzero)
        refine ⟨hready₁, ?_⟩
        have hall := hdrop items (by rw [hindex]; rfl)
        exact hall
      | none =>
        dsimp only at h
        split at h
        · obtain ⟨rfl, rfl⟩ := Prod.mk.inj h
          exact ⟨fun _ => by dsimp only; omega, fun hzero => absurd hzero (by decide)⟩
        · obtain ⟨rfl, rfl⟩ := Prod.mk.inj h
          exact ⟨fun hsome => (by cases hsome), fun hzero => absurd hzero (by decide)⟩

theorem seekLoop_spec {items : List Item} {a : Alloc} {offset fuel : Nat} {m m' : SeqFile} {e : Int}
    (hsize : m.buf.isSome = true → 0 < m.size)
    (h : seekLoop items a offset fuel m = some (m', e)) :
    (m'.buf.isSome = true → 0 < m'.size) ∧
      (e = 0 → m'.Ready ∧ m'.rest items = (content items).drop offset) := by
  induction fuel generalizing m with
  | zero => cases h
  | succ fuel ih =>
    rw [seekLoop] at h
    rcases htraverse : traverse items a m offset with ⟨m₁, e₁⟩
    have hspec := traverse_spec hsize htraverse
    rw [htraverse] at h
    dsimp only at h
    split at h
    · exact ih hspec.1 h
    · obtain ⟨rfl, rfl⟩ := Prod.mk.inj (Option.some.inj h)
      exact hspec

theorem seekTo_sound {items : List Item} {a : Alloc} {fuel : Nat} {f f' : File} {offset : Int}
    {r : Except Int Nat} (hf : f.Sound items) (h : seekTo items a fuel f offset = some (r, f')) :
    f'.Sound items := by
  unfold seekTo at h
  split at h
  · obtain ⟨-, rfl⟩ := Prod.mk.inj (Option.some.inj h)
    exact hf
  · split at h
    · obtain ⟨-, rfl⟩ := Prod.mk.inj (Option.some.inj h)
      exact hf
    · split at h
      · cases h
      · rename_i m e hloop
        obtain ⟨hsize, hrest⟩ := seekLoop_spec hf.ready.size_pos hloop
        split at h
        · obtain ⟨-, rfl⟩ := Prod.mk.inj (Option.some.inj h)
          exact ⟨⟨hsize, fun hne => absurd rfl hne⟩, rfl⟩
        · rename_i hzero
          obtain ⟨-, rfl⟩ := Prod.mk.inj (Option.some.inj h)
          obtain ⟨hready, hdrop⟩ := hrest (not_not.mp hzero)
          exact ⟨hready, hdrop⟩

theorem seqLseek_sound {items : List Item} {a : Alloc} {fuel : Nat} {f f' : File}
    {offset origin : Int} {r : Except Int Nat} (hf : f.Sound items)
    (h : seqLseek items a fuel f offset origin = some (r, f')) : f'.Sound items := by
  unfold seqLseek at h
  split at h
  · exact seekTo_sound hf h
  · split at h
    · exact seekTo_sound hf h
    · obtain ⟨-, rfl⟩ := Prod.mk.inj (Option.some.inj h)
      exact hf

/-! ### Sessions -/

/-- The states of a file that has been opened, read and sought in, where no read has had to
    go without a larger buffer. -/
inductive Session (items : List Item) : File → Prop
  | opened : Session items seqOpen
  | read {a : Alloc} {f f' : File} {size : Nat} {r : Except Int (List UInt8)}
      (h : Session items f) (hgrow : ∀ n, a.grow n = true)
      (hread : seqRead items a f size = some (r, f')) : Session items f'
  | lseek {a : Alloc} {fuel : Nat} {f f' : File} {offset origin : Int} {r : Except Int Nat}
      (h : Session items f) (hseek : seqLseek items a fuel f offset origin = some (r, f')) :
      Session items f'

theorem Delivers.sound {items : List Item} {a : Alloc} {f f' : File} {size : Nat}
    {r : Except Int (List UInt8)} (h : Delivers items a f size r f') (hf : f.Sound items) :
    f'.Sound items := by
  refine ⟨h.ready, ?_⟩
  have hrest := h.rest
  rw [hf.rest] at hrest
  rw [h.fPos, ← List.drop_drop, ← hrest, List.drop_left]

theorem Session.sound {items : List Item} {f : File} (h : Session items f) : f.Sound items := by
  induction h with
  | opened => exact ⟨⟨fun hsome => (by cases hsome), fun hne => absurd rfl hne⟩, rfl⟩
  | @read a f f' size r _ hgrow hread ih =>
    obtain ⟨r', f'', hread', hdelivers⟩ := seqRead_delivers items hgrow ih.ready size
    rw [hread] at hread'
    obtain ⟨rfl, rfl⟩ := Prod.mk.inj (Option.some.inj hread')
    exact hdelivers.sound ih
  | lseek _ hseek ih => exact seqLseek_sound ih hseek

theorem Delivers.piece {items : List Item} {a : Alloc} {f f' : File} {size : Nat}
    {r : Except Int (List UInt8)} (h : Delivers items a f size r f') (hf : f.Sound items) :
    received r = ((content items).drop f.fPos).take (received r).length := by
  rw [← hf.rest, ← h.rest, List.take_left]

/-- **Reads deliver the records piece by piece.**  In every session with a file, whatever
    has been read and sought before, a read delivers the bytes of the text from `f_pos` on,
    no more than it was asked for, moves `f_pos` behind them and copies nothing that was not
    stored; and if no record is empty, a read of at least one byte that returns 0 has found
    the end of the text. -/
theorem seq_read_pieces {items : List Item} {f : File} (h : Session items f) {a : Alloc}
    (hgrow : ∀ n, a.grow n = true) (size : Nat) :
    ∃ r f', seqRead items a f size = some (r, f') ∧
      received r = ((content items).drop f.fPos).take (received r).length ∧
      (received r).length ≤ size ∧ f'.fPos = f.fPos + (received r).length ∧
      (NonEmpty items → 0 < size → r = .ok [] → (content items).length ≤ f.fPos) := by
  have hf := h.sound
  obtain ⟨r, f', hread, hdelivers⟩ := seqRead_delivers items hgrow hf.ready size
  refine ⟨r, f', hread, hdelivers.piece hf, hdelivers.le, hdelivers.fPos, fun hne hpos hok => ?_⟩
  have hrest := hdelivers.ends hne hpos (by rw [hok]; rfl) (.inr hok)
  rw [hf.rest] at hrest
  exact List.drop_eq_nil_iff.mp hrest

/-- Two records, one of them with a character to be escaped. -/
def twoRecords : List Item :=
  [.record [.puts [0x68, 0x69], .putc 0x0a] 0, .record [.escape [0x61, 0x20] [0x20]] 0]

theorem nonEmpty_twoRecords : NonEmpty twoRecords := by
  intro prints ret hmem
  simp only [twoRecords, List.mem_cons, List.not_mem_nil, or_false, Item.record.injEq] at hmem
  rcases hmem with ⟨rfl, -⟩ | ⟨rfl, -⟩
  · decide
  · decide

theorem seq_read_pieces_second :
    ∃ f r f', Session twoRecords f ∧ f.fPos = 2 ∧
      seqRead twoRecords ⟨true, fun _ => true⟩ f 4 = some (r, f') ∧
      received r = ((content twoRecords).drop 2).take (received r).length ∧
      (received r).length ≤ 4 := by
  have hfirst : seqRead twoRecords ⟨true, fun _ => true⟩ seqOpen 2
      = some (.ok [0x68, 0x69], ⟨⟨some [0x68, 0x69, 0x0a], 4096, 2, 1, 0⟩, 2⟩) := by decide
  have hsession := Session.read .opened (fun _ => rfl) hfirst
  obtain ⟨r, f', hread, hpiece, hle, -, -⟩ :=
    seq_read_pieces hsession (a := ⟨true, fun _ => true⟩) (fun _ => rfl) 4
  exact ⟨_, r, f', hsession, rfl, hread, hpiece, hle⟩

/-- One read after the other: all that they deliver, and the file. -/
def readAll (items : List Item) (a : Alloc) (f : File) : List Nat → Option (List UInt8 × File)
  | [] => some ([], f)
  | size :: sizes =>
      match seqRead items a f size with
      | none => none
      | some (r, f') => (readAll items a f' sizes).map fun g => (received r ++ g.1, g.2)

/-- **The whole text arrives.**  However the reads cut it, as many reads of at least one byte
    as there are bytes left deliver the rest of the text, and nothing else. -/
theorem seq_read_to_end {items : List Item} {f : File} (h : Session items f) {a : Alloc}
    (hgrow : ∀ n, a.grow n = true) (hpage : a.page = true) (hne : NonEmpty items)
    {sizes : List Nat} (hpos : ∀ size ∈ sizes, 0 < size)
    (henough : (content items).length ≤ f.fPos + sizes.length) :
    ∃ f', readAll items a f sizes = some ((content items).drop f.fPos, f') := by
  induction sizes generalizing f with
  | nil =>
    rw [List.length_nil, Nat.add_zero] at henough
    rw [List.drop_eq_nil_of_le henough]
    exact ⟨f, rfl⟩
  | cons size sizes ih =>
    have hf := h.sound
    obtain ⟨r, f', hread, hdelivers⟩ := seqRead_delivers items hgrow hf.ready size
    have hsome : (content items).length ≤ f.fPos ∨ 0 < (received r).length := by
      by_cases hnil : received r = []
      · have hrest := hdelivers.ends hne (hpos size List.mem_cons_self) hnil (.inl hpage)
        rw [hf.rest] at hrest
        exact .inl (List.drop_eq_nil_iff.mp hrest)
      · exact .inr (List.length_pos_iff.mpr hnil)
    have hfPos := hdelivers.fPos
    rw [List.length_cons] at henough
    obtain ⟨f'', hall⟩ := ih (h.read hgrow hread)
      (fun n hn => hpos n (List.mem_cons_of_mem _ hn)) (by omega)
    refine ⟨f'', ?_⟩
    have hrest := hdelivers.rest
    rw [hf.rest, (hdelivers.sound hf).rest] at hrest
    rw [readAll, hread]
    dsimp only
    rw [hall, Option.map_some, hrest]

theorem seq_read_to_end_two :
    ∃ f', readAll twoRecords ⟨true, fun _ => true⟩ seqOpen [1, 3, 1, 2, 1, 4, 1, 1]
      = some ([0x68, 0x69, 0x0a, 0x61, 0x5c, 0x30, 0x34, 0x30], f') :=
  seq_read_to_end .opened (fun _ => rfl) rfl nonEmpty_twoRecords (by decide) (by decide)

end VmkLinux.Seq
