/-
  VmkLinux/Hid/Input.lean
  =======================
  **The keys that are down.**

  A field that is an array of keys sends the keys that are down, in any order, with every
  report.  `hid_input_field` compares them with the last ones and tells the listeners what
  has changed.  A listener that does nothing but follow these events (`held`) knows at any
  time the keys of the last report that counted (`said`): none gets stuck and none is lost.
-/
import VmkLinux.Hid.Model
import Mathlib.Data.List.Basic
import Mathlib.Logic.Function.Basic

namespace VmkLinux.Hid

open ByteBuf

/-! ### Following events -/

section Held

variable {κ : Type} [DecidableEq κ]

/-- A key is pressed, or let go where the value is zero. -/
def follow (down : κ → Bool) (e : κ × BitVec 32) : κ → Bool :=
  Function.update down e.1 (e.2 != 0#32)

theorem follow_same {down : κ → Bool} {e : κ × BitVec 32} {k : κ} (h : e.1 = k) :
    follow down e k = (e.2 != 0#32) := by
  rw [← h]
  exact Function.update_self _ _ _

theorem follow_other {down : κ → Bool} {e : κ × BitVec 32} {k : κ} (h : e.1 ≠ k) :
    follow down e k = down k := Function.update_of_ne (Ne.symm h) _ _

/-- What is held down after the events. -/
def held (down : κ → Bool) (events : List (κ × BitVec 32)) : κ → Bool := events.foldl follow down

theorem held_append (down : κ → Bool) (es es' : List (κ × BitVec 32)) :
    held down (es ++ es') = held (held down es) es' := List.foldl_append

/-- What one key does depends on itself only. -/
theorem held_congr {down down' : κ → Bool}
    {events : List (κ × BitVec 32)} {k : κ} (h : down k = down' k) :
    held down events k = held down' events k := by
  induction events generalizing down down' with
  | nil => exact h
  | cons e events ih =>
    apply ih
    by_cases hk : e.1 = k
    · rw [follow_same hk, follow_same hk]
    · rw [follow_other hk, follow_other hk]
      exact h

/-- A key that is pressed and not let go is held. -/
theorem held_of_pressed {down : κ → Bool} {events : List (κ × BitVec 32)} {k : κ}
    (hevents : ∀ e ∈ events, e.1 = k → e.2 ≠ 0#32)
    (h : down k = true ∨ ∃ e ∈ events, e.1 = k) : held down events k = true := by
  induction events generalizing down with
  | nil =>
    rcases h with h | ⟨e, he, -⟩
    · exact h
    · exact absurd he List.not_mem_nil
  | cons e events ih =>
    refine ih (fun d hd => hevents d (List.mem_cons_of_mem e hd)) ?_
    by_cases hk : e.1 = k
    · left
      rw [follow_same hk]
      exact bne_iff_ne.mpr (hevents e List.mem_cons_self hk)
    · rw [follow_other hk]
      rcases h with h | ⟨d, hd, hdk⟩
      · exact .inl h
      · rcases List.mem_cons.mp hd with rfl | hd
        · exact absurd hdk hk
        · exact .inr ⟨d, hd, hdk⟩

/-- A key that is let go and not pressed is not held. -/
theorem not_held_of_released {down : κ → Bool} {events : List (κ × BitVec 32)} {k : κ}
    (hevents : ∀ e ∈ events, e.1 = k → e.2 = 0#32)
    (h : down k = false ∨ ∃ e ∈ events, e.1 = k) : held down events k = false := by
  induction events generalizing down with
  | nil =>
    rcases h with h | ⟨e, he, -⟩
    · exact h
    · exact absurd he List.not_mem_nil
  | cons e events ih =>
    refine ih (fun d hd => hevents d (List.mem_cons_of_mem e hd)) ?_
    by_cases hk : e.1 = k
    · left
      rw [follow_same hk, hevents e List.mem_cons_self hk]
      rfl
    · rw [follow_other hk]
      rcases h with h | ⟨d, hd, hdk⟩
      · exact .inl h
      · rcases List.mem_cons.mp hd with rfl | hd
        · exact absurd hdk hk
        · exact .inr ⟨d, hd, hdk⟩

/-- Events about other keys change nothing. -/
theorem held_of_others {down : κ → Bool} {events : List (κ × BitVec 32)} {k : κ}
    (hevents : ∀ e ∈ events, e.1 ≠ k) : held down events k = down k := by
  cases hk : down k with
  | true => exact held_of_pressed (fun e he hek => absurd hek (hevents e he)) (.inl hk)
  | false => exact not_held_of_released (fun e he hek => absurd hek (hevents e he)) (.inl hk)

end Held

/-! ### The keys of a field -/

/-- The value is a key of the field. -/
def Field.isKey (f : Field) (v : BitVec 32) : Bool :=
  f.inRange v && f.usage[f.index v]?.any (· != 0#32)

/-- The key of usage `i` is one of the values. -/
def Field.shows (f : Field) (value : List (BitVec 32)) (i : Nat) : Bool :=
  value.any fun v => f.isKey v && f.index v == i

theorem Field.shows_iff {f : Field} {value : List (BitVec 32)} {i : Nat} :
    f.shows value i = true ↔ ∃ v ∈ value, f.isKey v = true ∧ f.index v = i := by
  unfold Field.shows
  simp only [List.any_eq_true, Bool.and_eq_true, beq_iff_eq]

theorem Field.index_inj {f : Field} {v w : BitVec 32} (hv : f.isKey v = true)
    (hw : f.isKey w = true) (h : f.index v = f.index w) : v = w := by
  have hmin : ∀ u, f.isKey u = true → f.logicalMinimum.toInt ≤ u.toInt := by
    intro u hu
    unfold Field.isKey Field.inRange at hu
    simp only [Bool.and_eq_true] at hu
    exact BitVec.sle_iff_toInt_le.mp hu.1.1
  have hv' := hmin v hv
  have hw' := hmin w hw
  unfold Field.index at h
  apply BitVec.eq_of_toInt_eq
  omega

/-! ### The events of a field -/

theorem change_spec {f : Field} {v : BitVec 32} {others : List (BitVec 32)} {value : BitVec 32}
    {events : List Event} (h : change f v others value = some events) (e : Event) :
    e ∈ events ↔ f.isKey v = true ∧ v ∉ others ∧ e = ⟨f.index v, value⟩ := by
  unfold change at h
  unfold Field.isKey
  by_cases hrange : f.inRange v = true
  · rw [if_pos hrange] at h
    obtain ⟨hid, hget, rfl⟩ := Option.map_eq_some_iff.mp h
    rw [hrange, hget]
    by_cases hkey : hid ≠ 0#32 ∧ v ∉ others
    · rw [if_pos hkey]
      simp [hkey.1, hkey.2]
    · rw [if_neg hkey]
      simp only [List.not_mem_nil, false_iff, Bool.true_and, Option.any_some, bne_iff_ne]
      rintro ⟨hne, hout, -⟩
      exact hkey ⟨hne, hout⟩
  · rw [if_neg hrange] at h
    obtain rfl := Option.some.inj h
    simp [hrange]

/-- What `e` says about a field whose values were `old` and are `new`. -/
def Reports (f : Field) (old new : List (BitVec 32)) (e : Event) : Prop :=
  (∃ v ∈ old, f.isKey v = true ∧ v ∉ new ∧ e = ⟨f.index v, 0#32⟩) ∨
    ∃ v ∈ new, f.isKey v = true ∧ v ∉ old ∧ e = ⟨f.index v, 1#32⟩

theorem eventsAt_spec {f : Field} {value : List (BitVec 32)} {n : Nat} {events : List Event}
    (hkeys : f.isVariable = false) (h : eventsAt f value n = some events) :
    ∃ v old, value[n]? = some v ∧ f.value[n]? = some old ∧ ∀ e, e ∈ events ↔
      (f.isKey old = true ∧ old ∉ value ∧ e = ⟨f.index old, 0#32⟩) ∨
        (f.isKey v = true ∧ v ∉ f.value ∧ e = ⟨f.index v, 1#32⟩) := by
  unfold eventsAt at h
  obtain ⟨v, hv, h⟩ := Option.bind_eq_some_iff.mp h
  rw [if_neg (by rw [hkeys]; decide)] at h
  obtain ⟨old, hold, h⟩ := Option.bind_eq_some_iff.mp h
  obtain ⟨up, hup, h⟩ := Option.bind_eq_some_iff.mp h
  obtain ⟨down, hdown, h⟩ := Option.bind_eq_some_iff.mp h
  obtain rfl := Option.some.inj h
  refine ⟨v, old, hv, hold, fun e => ?_⟩
  rw [List.mem_append, change_spec hup, change_spec hdown]

theorem eventLoop_spec {f : Field} {value : List (BitVec 32)} {ns : List Nat}
    {events : List Event} (hkeys : f.isVariable = false)
    (h : eventLoop f value ns = some events) (e : Event) :
    e ∈ events ↔ ∃ n ∈ ns, ∃ v old, value[n]? = some v ∧ f.value[n]? = some old ∧
      ((f.isKey old = true ∧ old ∉ value ∧ e = ⟨f.index old, 0#32⟩) ∨
        (f.isKey v = true ∧ v ∉ f.value ∧ e = ⟨f.index v, 1#32⟩)) := by
  induction ns generalizing events with
  | nil =>
    obtain rfl := Option.some.inj h
    simp
  | cons n ns ih =>
    obtain ⟨here, hhere, h⟩ := Option.bind_eq_some_iff.mp h
    obtain ⟨later, hlater, h⟩ := Option.bind_eq_some_iff.mp h
    obtain rfl := Option.some.inj h
    obtain ⟨v, old, hv, hold, hspec⟩ := eventsAt_spec hkeys hhere
    rw [List.mem_append, hspec, ih hlater]
    constructor
    · rintro (hnow | ⟨m, hm, hrest⟩)
      · exact ⟨n, List.mem_cons_self, v, old, hv, hold, hnow⟩
      · exact ⟨m, List.mem_cons_of_mem n hm, hrest⟩
    · rintro ⟨m, hm, v', old', hv', hold', hrest⟩
      rcases List.mem_cons.mp hm with rfl | hm
      · obtain rfl := Option.some.inj (hv.symm.trans hv')
        obtain rfl := Option.some.inj (hold.symm.trans hold')
        exact .inl hrest
      · exact .inr ⟨m, hm, v', old', hv', hold', hrest⟩

theorem mem_iff_lt {l : List (BitVec 32)} {count : Nat} (hlen : l.length = count) {v : BitVec 32} :
    v ∈ l ↔ ∃ n ∈ List.range count, l[n]? = some v := by
  rw [List.mem_iff_getElem?]
  constructor
  · rintro ⟨n, hn⟩
    have hlt := (List.getElem?_eq_some_iff.mp hn).1
    exact ⟨n, List.mem_range.mpr (hlen ▸ hlt), hn⟩
  · rintro ⟨n, -, hn⟩
    exact ⟨n, hn⟩

/-- **The events of a report** are those of the keys that were let go and of those that were
    pressed. -/
theorem mem_eventLoop {f : Field} {value : List (BitVec 32)} {events : List Event}
    (hkeys : f.isVariable = false) (hold : f.value.length = f.reportCount)
    (hnew : value.length = f.reportCount)
    (h : eventLoop f value (List.range f.reportCount) = some events) (e : Event) :
    e ∈ events ↔ Reports f f.value value e := by
  rw [eventLoop_spec hkeys h]
  constructor
  · rintro ⟨n, -, v, old, hv, hold', (⟨hkey, hout, he⟩ | ⟨hkey, hout, he⟩)⟩
    · exact .inl ⟨old, List.mem_of_getElem? hold', hkey, hout, he⟩
    · exact .inr ⟨v, List.mem_of_getElem? hv, hkey, hout, he⟩
  · rintro (⟨old, hmem, hkey, hout, he⟩ | ⟨v, hmem, hkey, hout, he⟩)
    · obtain ⟨n, hn, hget⟩ := (mem_iff_lt hold).mp hmem
      have hlt : n < value.length := by
        rw [hnew]
        exact List.mem_range.mp hn
      exact ⟨n, hn, value[n], old, List.getElem?_eq_getElem hlt, hget, .inl ⟨hkey, hout, he⟩⟩
    · obtain ⟨n, hn, hget⟩ := (mem_iff_lt hnew).mp hmem
      have hlt : n < f.value.length := by
        rw [hold]
        exact List.mem_range.mp hn
      exact ⟨n, hn, v, f.value[n], hget, List.getElem?_eq_getElem hlt, .inr ⟨hkey, hout, he⟩⟩

/-- An event without the names of its parts. -/
def Event.pair (e : Event) : Nat × BitVec 32 := (e.usage, e.value)

/-- **Who follows the events knows the keys.** -/
theorem held_eq_shows {f : Field} {old new : List (BitVec 32)} {events : List Event}
    (h : ∀ e, e ∈ events ↔ Reports f old new e) (i : Nat) :
    held (f.shows old) (events.map Event.pair) i = f.shows new i := by
  have hmem : ∀ e ∈ events.map Event.pair, ∃ d, Reports f old new d ∧ d.pair = e := by
    intro e he
    obtain ⟨d, hd, rfl⟩ := List.mem_map.mp he
    exact ⟨d, (h d).mp hd, rfl⟩
  cases hnew : f.shows new i with
  | true =>
    obtain ⟨v, hv, hkey, rfl⟩ := Field.shows_iff.mp hnew
    refine held_of_pressed ?_ ?_
    · rintro e he hei hzero
      obtain ⟨d, hd, rfl⟩ := hmem e he
      rcases hd with ⟨w, hw, hwkey, hout, rfl⟩ | ⟨w, hw, hwkey, hout, rfl⟩
      · obtain rfl := Field.index_inj hwkey hkey hei
        exact hout hv
      · exact absurd (show 1#32 = 0#32 from hzero) (by decide)
    · by_cases hold : v ∈ old
      · exact .inl (Field.shows_iff.mpr ⟨v, hold, hkey, rfl⟩)
      · refine .inr ⟨(f.index v, 1#32), List.mem_map.mpr ⟨⟨f.index v, 1#32⟩, ?_, rfl⟩, rfl⟩
        exact (h _).mpr (.inr ⟨v, hv, hkey, hold, rfl⟩)
  | false =>
    have hnone : ∀ v ∈ new, f.isKey v = true → f.index v ≠ i := by
      intro v hv hkey hi
      have hshown := Field.shows_iff.mpr ⟨v, hv, hkey, hi⟩
      rw [hnew] at hshown
      cases hshown
    refine not_held_of_released ?_ ?_
    · rintro e he hei
      obtain ⟨d, hd, rfl⟩ := hmem e he
      rcases hd with ⟨w, hw, hwkey, hout, rfl⟩ | ⟨w, hw, hwkey, hout, rfl⟩
      · rfl
      · exact absurd hei (hnone w hw hwkey)
    · cases hold : f.shows old i with
      | false => exact .inl rfl
      | true =>
        obtain ⟨v, hv, hkey, rfl⟩ := Field.shows_iff.mp hold
        have hout : v ∉ new := fun hmem => hnone v hmem hkey rfl
        refine .inr ⟨(f.index v, 0#32), List.mem_map.mpr ⟨⟨f.index v, 0#32⟩, ?_, rfl⟩, rfl⟩
        exact (h _).mpr (.inl ⟨v, hv, hkey, hout, rfl⟩)

/-! ### One field -/

theorem length_readValues {f : Field} {data : Buf} {ns : List Nat} {value : List (BitVec 32)}
    (h : readValues f data ns = some (some value)) : value.length = ns.length := by
  induction ns generalizing value with
  | nil =>
    obtain rfl := Option.some.inj (Option.some.inj h)
    rfl
  | cons n ns ih =>
    obtain ⟨v, -, h⟩ := Option.bind_eq_some_iff.mp h
    obtain ⟨ignored, -, h⟩ := Option.bind_eq_some_iff.mp h
    split at h
    · cases h
    · obtain ⟨rest, hrest, h⟩ := Option.map_eq_some_iff.mp h
      obtain ⟨tail, rfl, rfl⟩ := Option.map_eq_some_iff.mp h
      rw [List.length_cons, List.length_cons, ih hrest]

/-- The values that a report gives a field, where they count. -/
def counted (f : Field) (alloc : Bool) (data : Buf) : Option (List (BitVec 32)) :=
  if alloc then (readValues f data (List.range f.reportCount)).join else none

theorem hidInputField_spec {f f' : Field} {alloc : Bool} {data : Buf} {events : List Event}
    (h : hidInputField f alloc data = some (f', events)) :
    (counted f alloc data = none ∧ f' = f ∧ events = []) ∨
      ∃ value, counted f alloc data = some value ∧ value.length = f.reportCount ∧
        f' = { f with value := value } ∧
        eventLoop f value (List.range f.reportCount) = some events := by
  unfold hidInputField at h
  unfold counted
  cases alloc with
  | false =>
    obtain ⟨rfl, rfl⟩ := Prod.mk.inj (Option.some.inj h)
    exact .inl ⟨rfl, rfl, rfl⟩
  | true =>
    rw [if_pos rfl] at h
    obtain ⟨read, hread, h⟩ := Option.bind_eq_some_iff.mp h
    rw [if_pos rfl, hread]
    cases read with
    | none =>
      obtain ⟨rfl, rfl⟩ := Prod.mk.inj (Option.some.inj h)
      exact .inl ⟨rfl, rfl, rfl⟩
    | some value =>
      obtain ⟨events', hevents, h⟩ := Option.bind_eq_some_iff.mp h
      obtain ⟨rfl, rfl⟩ := Prod.mk.inj (Option.some.inj h)
      have hlen := length_readValues hread
      rw [List.length_range] at hlen
      exact .inr ⟨value, rfl, hlen, rfl, hevents⟩

/-- The field after a report. -/
def Field.after (f : Field) (alloc : Bool) (data : Buf) : Field :=
  { f with value := (counted f alloc data).getD f.value }

/-- **One field.** -/
theorem hidInputField_keys {f f' : Field} {alloc : Bool} {data : Buf} {events : List Event}
    (hlen : f.value.length = f.reportCount) (h : hidInputField f alloc data = some (f', events)) :
    f' = f.after alloc data ∧ f'.value.length = f'.reportCount ∧
      (f.isVariable = false → ∀ i, held (f.shows f.value) (events.map Event.pair) i =
        f.shows f'.value i) := by
  rcases hidInputField_spec h with ⟨hnone, rfl, rfl⟩ | ⟨value, hsome, hvalue, rfl, hevents⟩
  · unfold Field.after
    rw [hnone]
    exact ⟨rfl, hlen, fun _ _ => rfl⟩
  · unfold Field.after
    rw [hsome]
    exact ⟨rfl, hvalue, fun hkeys i =>
      held_eq_shows (fun e => mem_eventLoop hkeys hlen hvalue hevents e) i⟩

/-! ### The fields of a report -/

/-- An event of field `k` of report `id`. -/
def Event.tagged (id k : Nat) (e : Event) : Source × BitVec 32 := (⟨id, k, e.usage⟩, e.value)

theorem held_tagged {down : Source → Bool} {id k i : Nat} {events : List Event} :
    held down (events.map (Event.tagged id k)) ⟨id, k, i⟩ =
      held (fun i => down ⟨id, k, i⟩) (events.map Event.pair) i := by
  induction events generalizing down with
  | nil => rfl
  | cons e events ih =>
    have hfollow : (fun i => follow down (e.tagged id k) ⟨id, k, i⟩) =
        follow (fun i => down ⟨id, k, i⟩) e.pair := by
      funext j
      by_cases hj : e.usage = j
      · subst hj
        have htagged : follow down (e.tagged id k) ⟨id, k, e.usage⟩ = (e.value != 0#32) :=
          follow_same rfl
        have hpair : follow (fun i => down ⟨id, k, i⟩) e.pair e.usage = (e.value != 0#32) :=
          follow_same rfl
        exact htagged.trans hpair.symm
      · rw [follow_other (fun h => hj (congrArg Source.usage h)), follow_other hj]
    show held (follow down (e.tagged id k)) (events.map (Event.tagged id k)) ⟨id, k, i⟩ = _
    rw [ih, hfollow]
    rfl

/-- Another field hears nothing. -/
theorem held_tagged_other {down : Source → Bool} {id k : Nat} {events : List Event} {s : Source}
    (h : s.report ≠ id ∨ s.field ≠ k) :
    held down (events.map (Event.tagged id k)) s = down s := by
  apply held_of_others
  intro e he heq
  obtain ⟨d, -, rfl⟩ := List.mem_map.mp he
  subst heq
  rcases h with h | h
  · exact h rfl
  · exact h rfl

/-- What the events say about field `j`, which was heard of as it was before. -/
def Heard (id j : Nat) (f f' : Field) (events : List (Source × BitVec 32)) : Prop :=
  f.isVariable = false → ∀ down : Source → Bool, (∀ i, down ⟨id, j, i⟩ = f.shows f.value i) →
    ∀ i, held down events ⟨id, j, i⟩ = f.shows f'.value i

theorem inputFields_spec {id k : Nat} {alloc : Nat → Bool} {data : Buf}
    {fields fields' : List Field} {events : List (Source × BitVec 32)}
    (hlen : ∀ f ∈ fields, f.value.length = f.reportCount)
    (h : inputFields id alloc data k fields = some (fields', events)) :
    fields'.length = fields.length ∧
      (∀ (j : Nat) (f : Field), fields[j]? = some f →
        fields'[j]? = some (f.after (alloc (k + j)) data) ∧
          (f.after (alloc (k + j)) data).value.length = f.reportCount ∧
          Heard id (k + j) f (f.after (alloc (k + j)) data) events) ∧
      ∀ (down : Source → Bool) (s : Source), (s.report ≠ id ∨ s.field < k) →
        held down events s = down s := by
  induction fields generalizing k fields' events with
  | nil =>
    obtain ⟨rfl, rfl⟩ := Prod.mk.inj (Option.some.inj h)
    exact ⟨rfl, fun j f hj => by simp at hj, fun _ _ _ => rfl⟩
  | cons f fields ih =>
    obtain ⟨⟨f', here⟩, hhere, h⟩ := Option.bind_eq_some_iff.mp h
    obtain ⟨⟨rest, later⟩, hlater, h⟩ := Option.bind_eq_some_iff.mp h
    obtain ⟨rfl, rfl⟩ := Prod.mk.inj (Option.some.inj h)
    obtain ⟨rfl, hlen', hkeys⟩ := hidInputField_keys (hlen f List.mem_cons_self) hhere
    obtain ⟨hlength, hfields, hothers⟩ :=
      ih (fun g hg => hlen g (List.mem_cons_of_mem f hg)) hlater
    refine ⟨by rw [List.length_cons, List.length_cons, hlength], ?_, ?_⟩
    · intro j g hj
      cases j with
      | zero =>
        obtain rfl := Option.some.inj hj
        refine ⟨rfl, hlen', fun harray down hdown i => ?_⟩
        rw [held_append, hothers _ _ (.inr (Nat.lt_succ_self k))]
        show held down (here.map (Event.tagged id k)) ⟨id, k, i⟩ = _
        have hbefore : (fun i => down ⟨id, k, i⟩) = f.shows f.value := funext hdown
        rw [held_tagged, hbefore]
        exact hkeys harray i
      | succ j =>
        obtain ⟨hget, hglen, hheard⟩ := hfields j g hj
        rw [show k + (j + 1) = k + 1 + j by omega]
        refine ⟨hget, hglen, fun harray down hdown i => ?_⟩
        rw [held_append]
        refine hheard harray _ (fun l => ?_) i
        show held down (here.map (Event.tagged id k)) ⟨id, k + 1 + j, l⟩ = _
        rw [held_tagged_other (.inr (by dsimp only; omega))]
        exact hdown l
    · intro down s hs
      rw [held_append, hothers _ _ (by omega)]
      exact held_tagged_other (by omega)

/-! ### All reports of a device -/

/-- A field as its descriptor says, without its values. -/
def Field.blank (f : Field) : Field := { f with value := [] }

def Report.blank (r : Report) : Report := { r with fields := r.fields.map Field.blank }

def ReportEnum.blank (e : ReportEnum) : ReportEnum :=
  { e with report := fun n => (e.report n).map Report.blank }

def ReportEnum.field (e : ReportEnum) (s : Source) : Option Field :=
  (e.report s.report).bind fun r => r.fields[s.field]?

/-- The key is one of the last values of its field. -/
def ReportEnum.shows (e : ReportEnum) (s : Source) : Bool :=
  (e.field s).any fun f => f.shows f.value s.usage

/-- Every field has as many values as it should. -/
def ReportEnum.Filled (e : ReportEnum) : Prop :=
  ∀ n r, e.report n = some r → ∀ f ∈ r.fields, f.value.length = f.reportCount

/-- The field of the usage is an array of keys. -/
def ReportEnum.IsArray (e : ReportEnum) (s : Source) : Prop :=
  ∃ f, e.field s = some f ∧ f.isVariable = false

/-- **What a report says** about the keys, by the descriptor alone: those of its fields whose
    values count are down if they are among the values. -/
def said (e : ReportEnum) (down : Source → Bool) (i : Input) (s : Source) : Bool :=
  match incoming e i.data i.size with
  | none => down s
  | some (n, r, data) =>
      if s.report = n then
        match r.fields[s.field]?.bind fun f =>
          (counted f (i.alloc s.field) data).map (f.shows · s.usage) with
        | none => down s
        | some shown => shown
      else down s

theorem readValues_blank {f : Field} {data : Buf} {ns : List Nat} :
    readValues f.blank data ns = readValues f data ns := by
  induction ns with
  | nil => rfl
  | cons n ns ih =>
    unfold readValues
    rw [ih]
    rfl

theorem counted_blank {f : Field} {alloc : Bool} {data : Buf} :
    counted f.blank alloc data = counted f alloc data := by
  unfold counted
  rw [readValues_blank]
  rfl

theorem incoming_blank {e : ReportEnum} {data : Buf} {size : Nat} :
    incoming e.blank data size = (incoming e data size).map fun t => (t.1, t.2.1.blank, t.2.2) := by
  unfold incoming
  split
  · rfl
  · dsimp only [ReportEnum.blank]
    rw [Option.map_map, Option.map_map]
    rfl

theorem incoming_report {e : ReportEnum} {data data' : Buf} {size n : Nat} {r : Report}
    (h : incoming e data size = some (n, r, data')) : e.report n = some r := by
  unfold incoming at h
  split at h
  · cases h
  · obtain ⟨r', hr, heq⟩ := Option.map_eq_some_iff.mp h
    have hn : _ = n := congrArg (fun t => t.1) heq
    have hr' : r' = r := congrArg (fun t => t.2.1) heq
    rw [← hn, ← hr']
    exact hr

theorem report_received {e : ReportEnum} {n m : Nat} {r : Report} {fields : List Field} :
    (e.received n r fields).report m =
      if m = n then some { r with fields := fields } else e.report m := rfl

theorem field_received {e : ReportEnum} {n : Nat} {r : Report} {fields : List Field} {s : Source}
    (hs : s.report = n) : (e.received n r fields).field s = fields[s.field]? := by
  unfold ReportEnum.field
  rw [report_received, if_pos hs]
  rfl

theorem field_received_other {e : ReportEnum} {n : Nat} {r : Report} {fields : List Field}
    {s : Source} (hs : s.report ≠ n) : (e.received n r fields).field s = e.field s := by
  unfold ReportEnum.field
  rw [report_received, if_neg hs]

theorem field_of_report {e : ReportEnum} {r : Report} {s : Source}
    (h : e.report s.report = some r) : e.field s = r.fields[s.field]? := by
  unfold ReportEnum.field
  rw [h]
  rfl

theorem shows_of_field {e : ReportEnum} {s : Source} {f : Field} (h : e.field s = some f) :
    e.shows s = f.shows f.value s.usage := by
  unfold ReportEnum.shows
  rw [h]
  rfl

/-- The fields of a report after it: as before, but for their values. -/
theorem blank_after {r : Report} {fields : List Field} {alloc : Nat → Bool} {data : Buf}
    (hlength : fields.length = r.fields.length)
    (hfields : ∀ (j : Nat) (f : Field), r.fields[j]? = some f →
      fields[j]? = some (f.after (alloc j) data)) :
    fields.map Field.blank = r.fields.map Field.blank := by
  apply List.ext_getElem?
  intro j
  rw [List.getElem?_map, List.getElem?_map]
  cases hj : r.fields[j]? with
  | none =>
    rw [List.getElem?_eq_none_iff, ← hlength, ← List.getElem?_eq_none_iff] at hj
    rw [hj]
  | some f =>
    rw [hfields j f hj]
    rfl

/-- **One report.** -/
theorem held_hidInputReport {e e' : ReportEnum} {i : Input} {ret : Int}
    {events : List (Source × BitVec 32)} (hfilled : e.Filled)
    (h : hidInputReport e i.alloc i.data i.size = some (ret, e', events)) :
    e'.Filled ∧ e'.blank = e.blank ∧ ∀ s, e.IsArray s →
      held e.shows events s = e'.shows s ∧ e'.shows s = said e.blank e.shows i s := by
  unfold hidInputReport at h
  unfold said
  rw [incoming_blank]
  cases hin : incoming e i.data i.size with
  | none =>
    rw [hin] at h
    obtain ⟨-, heq⟩ := Prod.mk.inj (Option.some.inj h)
    obtain ⟨rfl, rfl⟩ := Prod.mk.inj heq
    exact ⟨hfilled, rfl, fun s _ => ⟨rfl, rfl⟩⟩
  | some t =>
    obtain ⟨n, r, data⟩ := t
    have hreport := incoming_report hin
    rw [hin] at h
    obtain ⟨⟨fields, ev⟩, hrun, h⟩ := Option.bind_eq_some_iff.mp h
    obtain ⟨-, heq⟩ := Prod.mk.inj (Option.some.inj h)
    obtain ⟨rfl, rfl⟩ := Prod.mk.inj heq
    obtain ⟨hlength, hfields, hothers⟩ := inputFields_spec (hfilled n r hreport) hrun
    simp only [Nat.zero_add] at hfields
    refine ⟨?_, ?_, ?_⟩
    · intro m r' hr' f' hf'
      rw [report_received] at hr'
      split at hr'
      · obtain rfl := Option.some.inj hr'
        obtain ⟨j, hj⟩ := List.mem_iff_getElem?.mp hf'
        have hlt : j < r.fields.length := hlength ▸ (List.getElem?_eq_some_iff.mp hj).1
        obtain ⟨hget, hlen, -⟩ := hfields j _ (List.getElem?_eq_getElem hlt)
        obtain rfl := Option.some.inj (hj.symm.trans hget)
        exact hlen
      · exact hfilled m r' hr' f' hf'
    · have hblank := blank_after hlength fun j f hj => (hfields j f hj).1
      have hreports : ∀ m, ((e.received n r fields).report m).map Report.blank =
          (e.report m).map Report.blank := by
        intro m
        rw [report_received]
        split
        · rename_i hm
          rw [hm, hreport]
          exact congrArg some (congrArg (Report.mk r.id · r.size) hblank)
        · rfl
      exact congrArg (ReportEnum.mk e.numbered) (funext hreports)
    · intro s harray
      dsimp only [Option.map_some]
      obtain ⟨f, hfield, hkeys⟩ := harray
      by_cases hs : s.report = n
      · subst hs
        rw [field_of_report hreport] at hfield
        obtain ⟨hget, -, hheard⟩ := hfields s.field f hfield
        have hfield' : (e.received s.report r fields).field s = _ := (field_received rfl).trans hget
        have hafter := shows_of_field hfield'
        have hheld := hheard hkeys e.shows
          (fun i => shows_of_field ((field_of_report hreport).trans hfield)) s.usage
        refine ⟨hheld.trans hafter.symm, ?_⟩
        rw [hafter, if_pos rfl]
        unfold Report.blank
        dsimp only
        rw [List.getElem?_map, hfield]
        dsimp only [Option.map_some, Option.bind_some]
        rw [counted_blank]
        unfold Field.after
        cases hcounted : counted f (i.alloc s.field) data with
        | none => exact (shows_of_field ((field_of_report hreport).trans hfield)).symm
        | some value => rfl
      · have hsame : (e.received n r fields).shows s = e.shows s := by
          unfold ReportEnum.shows
          rw [field_received_other hs]
        rw [hsame, if_neg hs]
        exact ⟨hothers e.shows s (.inl hs), rfl⟩

theorem ReportEnum.IsArray.of_blank {e e' : ReportEnum} {s : Source} (h : e.IsArray s)
    (hblank : e'.blank = e.blank) : e'.IsArray s := by
  have hfield : ∀ d : ReportEnum, d.blank.field s = (d.field s).map Field.blank := by
    intro d
    unfold ReportEnum.field ReportEnum.blank Report.blank
    dsimp only
    cases d.report s.report with
    | none => rfl
    | some r => exact List.getElem?_map
  obtain ⟨f, hf, hkeys⟩ := h
  have hsame := hfield e'
  rw [hblank, hfield e, hf] at hsame
  obtain ⟨f', hf', heq⟩ := Option.map_eq_some_iff.mp hsame.symm
  exact ⟨f', hf', (congrArg Field.isVariable heq).trans hkeys⟩

theorem foldl_said_congr {e : ReportEnum} {inputs : List Input} {down down' : Source → Bool}
    {s : Source} (h : down s = down' s) :
    inputs.foldl (said e) down s = inputs.foldl (said e) down' s := by
  induction inputs generalizing down down' with
  | nil => exact h
  | cons i inputs ih =>
    apply ih
    unfold said
    rw [h]

/-- **No key is lost and none gets stuck.**  Over any run of reports, of any numbers, short,
    unknown or ignored ones among them: a listener that started with the keys that the
    fields had, and that presses and releases keys as the events say, holds down just the
    keys that the last report that counted named for their field; and these are the values
    that the field has. -/
theorem hid_keys_follow_reports {e e' : ReportEnum} {inputs : List Input}
    {events : List (Source × BitVec 32)} (hfilled : e.Filled)
    (h : hidInputReports e inputs = some (e', events)) {s : Source} (hs : e.IsArray s) :
    held e.shows events s = inputs.foldl (said e.blank) e.shows s ∧
      held e.shows events s = e'.shows s := by
  induction inputs generalizing e events with
  | nil =>
    obtain ⟨rfl, rfl⟩ := Prod.mk.inj (Option.some.inj h)
    exact ⟨rfl, rfl⟩
  | cons i inputs ih =>
    obtain ⟨⟨ret, e₁, here⟩, hhere, h⟩ := Option.bind_eq_some_iff.mp h
    obtain ⟨⟨e₂, later⟩, hlater, h⟩ := Option.bind_eq_some_iff.mp h
    obtain ⟨rfl, rfl⟩ := Prod.mk.inj (Option.some.inj h)
    obtain ⟨hfilled₁, hblank, hkeys⟩ := held_hidInputReport hfilled hhere
    obtain ⟨hheld, hsaid⟩ := hkeys s hs
    obtain ⟨hfold, hend⟩ := ih hfilled₁ hlater (hs.of_blank hblank)
    rw [held_append, held_congr hheld, hend]
    refine ⟨?_, rfl⟩
    rw [← hend, hfold, hblank]
    exact foldl_said_congr hsaid

/-- A keyboard that sends two keys. -/
def keyboard : ReportEnum where
  numbered := false
  report := fun n =>
    if n = 0 then
      some ⟨0, [⟨[0#32, 0x70001#32, 0x70004#32, 0x70005#32], 0#32, 0, 8, 2, [0#32, 0#32],
        0#32, 3#32⟩], 16⟩
    else none

/-- Its reports: both keys down, one of them let go, too many keys, and nothing at all. -/
def typed : List Input :=
  [⟨fun _ => true, fun k => if k = 0 then 2 else 3, 2⟩,
    ⟨fun _ => true, fun k => if k = 0 then 3 else 0, 2⟩, ⟨fun _ => true, fun _ => 1, 2⟩,
    ⟨fun _ => true, fun _ => 0, 0⟩]

theorem hid_keys_follow_reports_typed :
    ∃ e' events, hidInputReports keyboard typed = some (e', events) ∧
      events = [(⟨0, 0, 2⟩, 1#32), (⟨0, 0, 3⟩, 1#32), (⟨0, 0, 2⟩, 0#32)] ∧
      held keyboard.shows events ⟨0, 0, 3⟩ =
        typed.foldl (said keyboard.blank) keyboard.shows ⟨0, 0, 3⟩ ∧
      held keyboard.shows events ⟨0, 0, 3⟩ = e'.shows ⟨0, 0, 3⟩ := by
  have hrun : ((hidInputReports keyboard typed).map fun r => r.2) =
      some [(⟨0, 0, 2⟩, 1#32), (⟨0, 0, 3⟩, 1#32), (⟨0, 0, 2⟩, 0#32)] := by decide
  obtain ⟨⟨e', events⟩, h, hevents⟩ := Option.map_eq_some_iff.mp hrun
  have hfilled : keyboard.Filled := by
    intro n r hr f hf
    unfold keyboard at hr
    dsimp only at hr
    split at hr
    · obtain rfl := Option.some.inj hr
      obtain rfl := List.mem_singleton.mp hf
      rfl
    · cases hr
  exact ⟨e', events, h, hevents, hid_keys_follow_reports hfilled h ⟨_, rfl, rfl⟩⟩

end VmkLinux.Hid
