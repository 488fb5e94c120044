/-
  VmkLinux/Interleave.lean
  ========================
  **Interleaved machines**: any number of threads over one shared state.

  Each module of the compatibility layer is a set of entry points that worlds,
  interrupt handlers and timers call at any time.  A call is a thread; the
  threads take turns, one atomic step each.  A `Machine` says what a call does
  when it starts and what one step of a thread does; a `Config` is the shared
  state with the list of all calls made so far, a call being named by its
  position in that list.  Nothing here knows which machine runs.

  The facts every invariant proof needs follow: what a step does to a sum over
  the threads (`total_eq_others`, `total_set`), what it does to an assertion about
  each thread (`Each.set`, `Each.append`), and that what a call makes under its
  own name is fresh (`Machine.Reach.fresh`).
-/
import Mathlib.Data.List.Basic

namespace VmkLinux.Interleave

/-- The shared state and the threads, each named by its position. -/
structure Config (G T : Type) where
  shared : G
  pool : List T

/-- What happens next: a call starts, or thread `i` takes a step; `a` resolves
    the choices that the code leaves to its surroundings. -/
inductive Event (C A : Type) where
  | start (call : C)
  | act (i : Nat) (a : A)
deriving DecidableEq, Repr

/-- A machine over shared states `G`, threads `T`, calls `C` and choices `A`.
    `start me call` is given the name the new thread gets; both functions return
    `none` where the step cannot be taken (a lock is held, nothing to deliver). -/
structure Machine (G T C A : Type) where
  start : Nat → C → G → Option (G × T)
  act : A → G → T → Option (G × T)

variable {G T C A : Type}

namespace Machine

variable (M : Machine G T C A)

/-- One event. -/
def exec (c : Config G T) : Event C A → Option (Config G T)
  | .start call =>
      match M.start c.pool.length call c.shared with
      | some (g, t) => some ⟨g, c.pool ++ [t]⟩
      | none => none
  | .act i a =>
      match c.pool[i]? with
      | some t =>
          match M.act a c.shared t with
          | some (g, t') => some ⟨g, c.pool.set i t'⟩
          | none => none
      | none => none

/-- A whole schedule, each event checked against `ok` before it is taken. -/
def runIf (ok : Config G T → Event C A → Bool) :
    List (Event C A) → Config G T → Option (Config G T)
  | [], c => some c
  | e :: es, c =>
      if ok c e then
        match M.exec c e with
        | some c' => runIf ok es c'
        | none => none
      else none

/-- A schedule with no condition on its events. -/
def run : List (Event C A) → Config G T → Option (Config G T) :=
  M.runIf fun _ _ => true

/-- The configurations that a run from `c₀` reaches when every event of the run
    satisfies `ok` in the configuration it is taken in. -/
inductive Reach (ok : Config G T → Event C A → Prop) (c₀ : Config G T) : Config G T → Prop
  | init : Reach ok c₀ c₀
  | step {c c' : Config G T} {e : Event C A} :
      Reach ok c₀ c → ok c e → M.exec c e = some c' → Reach ok c₀ c'

/-- The configurations that some run reaches, whatever its events. -/
def Reachable (c₀ : Config G T) : Config G T → Prop :=
  M.Reach (fun _ _ => True) c₀

variable {M}

theorem Reach.mono {ok ok' : Config G T → Event C A → Prop} {c₀ c : Config G T}
    (himp : ∀ c e, ok c e → ok' c e) (h : M.Reach ok c₀ c) : M.Reach ok' c₀ c := by
  induction h with
  | init => exact .init
  | step _ hok hexec ih => exact .step ih (himp _ _ hok) hexec

theorem Reach.reachable {ok : Config G T → Event C A → Prop} {c₀ c : Config G T}
    (h : M.Reach ok c₀ c) : M.Reachable c₀ c :=
  h.mono fun _ _ _ => trivial

theorem Reach.trans {ok : Config G T → Event C A → Prop} {c₀ c c' : Config G T}
    (h : M.Reach ok c₀ c) (h' : M.Reach ok c c') : M.Reach ok c₀ c' := by
  induction h' with
  | init => exact h
  | step _ hok hexec ih => exact .step ih hok hexec

/-- A schedule goes on after its first event. -/
theorem runIf_cons (ok : Config G T → Event C A → Bool) (e : Event C A) (es : List (Event C A))
    (c : Config G T) :
    M.runIf ok (e :: es) c = if ok c e then (M.exec c e).bind (M.runIf ok es) else none := by
  show (if ok c e then _ else none) = _
  cases M.exec c e <;> rfl

theorem runIf_cons_eq_some {ok : Config G T → Event C A → Bool} {e : Event C A}
    {es : List (Event C A)} {c c' : Config G T} :
    M.runIf ok (e :: es) c = some c' ↔
      ok c e = true ∧ ∃ c₁, M.exec c e = some c₁ ∧ M.runIf ok es c₁ = some c' := by
  rw [runIf_cons, Option.ite_none_right_eq_some, Option.bind_eq_some_iff]

theorem Reach.trans_runIf {ok : Config G T → Event C A → Bool} {c₀ : Config G T} :
    ∀ {es : List (Event C A)} {c c' : Config G T},
      M.Reach (fun c e => ok c e = true) c₀ c → M.runIf ok es c = some c' →
      M.Reach (fun c e => ok c e = true) c₀ c' := by
  intro es
  induction es with
  | nil =>
    intro c c' hc hrun
    cases hrun
    exact hc
  | cons e es ih =>
    intro c c' hc hrun
    obtain ⟨hok, c₁, hexec, hrest⟩ := runIf_cons_eq_some.mp hrun
    exact ih (.step hc hok hexec) hrest

/-- A schedule that runs to its end reaches where it ends. -/
theorem reach_of_runIf {ok : Config G T → Event C A → Bool} {es : List (Event C A)}
    {c₀ c : Config G T} (h : M.runIf ok es c₀ = some c) :
    M.Reach (fun c e => ok c e = true) c₀ c :=
  Reach.trans_runIf .init h

variable (M) in
/-- What a schedule shows at its end can be reached. -/
theorem exists_reach_of_runIf {O : Type} (ok : Config G T → Event C A → Bool)
    (es : List (Event C A)) (c₀ : Config G T) (observe : Config G T → O) (o : O)
    (h : (M.runIf ok es c₀).map observe = some o) :
    ∃ c, M.Reach (fun c e => ok c e = true) c₀ c ∧ observe c = o := by
  obtain ⟨c, hc, ho⟩ := Option.map_eq_some_iff.mp h
  exact ⟨c, reach_of_runIf hc, ho⟩

variable (M) in
theorem exists_reachable_of_run {O : Type} (es : List (Event C A)) (c₀ : Config G T)
    (observe : Config G T → O) (o : O) (h : (M.run es c₀).map observe = some o) :
    ∃ c, M.Reachable c₀ c ∧ observe c = o := by
  obtain ⟨c, hc, ho⟩ := M.exists_reach_of_runIf _ es c₀ observe o h
  exact ⟨c, hc.reachable, ho⟩

theorem runIf_append {ok : Config G T → Event C A → Bool} (es es' : List (Event C A))
    (c : Config G T) : M.runIf ok (es ++ es') c = (M.runIf ok es c).bind (M.runIf ok es') := by
  induction es generalizing c with
  | nil => rfl
  | cons e es ih =>
    rw [List.cons_append, runIf_cons, runIf_cons]
    by_cases hok : ok c e
    · rw [if_pos hok, if_pos hok]
      cases M.exec c e with
      | none => rfl
      | some c₁ => exact ih c₁
    · rw [if_neg hok, if_neg hok]
      rfl

variable (M) in
/-- A schedule with a stop in between. -/
theorem exists_reach_stages {O O' : Type} (ok : Config G T → Event C A → Bool)
    (es es' : List (Event C A)) (c : Config G T) (observe : Config G T → O) (o : O)
    (observe' : Config G T → O') (o' : O') (h : (M.runIf ok es c).map observe = some o)
    (h' : (M.runIf ok (es ++ es') c).map observe' = some o') :
    ∃ c₀ c₁, M.Reach (fun c e => ok c e = true) c c₀ ∧ observe c₀ = o ∧
      M.Reach (fun c e => ok c e = true) c₀ c₁ ∧ observe' c₁ = o' := by
  obtain ⟨c₀, hc₀, ho⟩ := Option.map_eq_some_iff.mp h
  obtain ⟨c₁, hc₁, ho'⟩ := Option.map_eq_some_iff.mp h'
  rw [runIf_append, hc₀] at hc₁
  exact ⟨c₀, c₁, reach_of_runIf hc₀, ho, reach_of_runIf hc₁, ho'⟩

variable (M) in
/-- A schedule with a stop before the event `e`. -/
theorem exists_stages {O O' : Type} (es : List (Event C A)) (e : Event C A)
    (es' : List (Event C A)) (c : Config G T) (observe : Config G T → O) (o : O)
    (observe' : Config G T → O') (o' : O') (h : (M.run es c).map observe = some o)
    (h' : (M.run (es ++ e :: es') c).map observe' = some o') :
    ∃ c₀ c₁ c₂, M.Reachable c c₀ ∧ observe c₀ = o ∧ M.exec c₀ e = some c₁ ∧
      M.Reachable c₁ c₂ ∧ observe' c₂ = o' := by
  obtain ⟨c₀, hc₀, ho⟩ := Option.map_eq_some_iff.mp h
  obtain ⟨c₂, hc₂, ho'⟩ := Option.map_eq_some_iff.mp h'
  have hreach : M.Reachable c c₀ := (reach_of_runIf hc₀).reachable
  unfold run at hc₀ hc₂
  rw [runIf_append, hc₀] at hc₂
  rw [Option.bind_some] at hc₂
  obtain ⟨-, c₁, hc₁, hrest⟩ := runIf_cons_eq_some.mp hc₂
  exact ⟨c₀, c₁, c₂, hreach, ho, hc₁, (reach_of_runIf hrest).reachable, ho'⟩

/-- A call adds the thread that it starts. -/
theorem exec_start_eq_some {c c' : Config G T} {call : C} :
    M.exec c (.start call) = some c' ↔
      ∃ g t, M.start c.pool.length call c.shared = some (g, t) ∧ ⟨g, c.pool ++ [t]⟩ = c' := by
  unfold exec
  dsimp only
  cases M.start c.pool.length call c.shared <;> simp [Prod.ext_iff]

/-- A step changes its own thread and what is shared. -/
theorem exec_act_eq_some {c c' : Config G T} {i : Nat} {a : A} :
    M.exec c (.act i a) = some c' ↔
      ∃ t g t', c.pool[i]? = some t ∧ M.act a c.shared t = some (g, t') ∧
        ⟨g, c.pool.set i t'⟩ = c' := by
  unfold exec
  dsimp only
  cases c.pool[i]? with
  | none => simp
  | some t => cases hact : M.act a c.shared t <;> simp [hact, Prod.ext_iff]

/-- **Invariant rule.**  An assertion that holds at the start and that every call
    and every step of a thread keeps holds wherever a run gets to.  The steps may
    use that the configuration they start from is itself reachable, so that an
    invariant proved earlier is at hand. -/
theorem Reach.invariant {ok : Config G T → Event C A → Prop} {c₀ : Config G T}
    (I : Config G T → Prop) (hinit : I c₀)
    (hstart : ∀ c call g t, M.Reach ok c₀ c → I c → ok c (.start call) →
      M.start c.pool.length call c.shared = some (g, t) → I ⟨g, c.pool ++ [t]⟩)
    (hact : ∀ c i a t g t', M.Reach ok c₀ c → I c → ok c (.act i a) → c.pool[i]? = some t →
      M.act a c.shared t = some (g, t') → I ⟨g, c.pool.set i t'⟩)
    {c : Config G T} (h : M.Reach ok c₀ c) : I c := by
  induction h with
  | init => exact hinit
  | @step c c' e hc hok hexec ih =>
    cases e with
    | start call =>
      obtain ⟨g, t, hs, rfl⟩ := exec_start_eq_some.mp hexec
      exact hstart c call g t hc ih hok hs
    | act i a =>
      obtain ⟨t, g, t', ht, hs, rfl⟩ := exec_act_eq_some.mp hexec
      exact hact c i a t g t' hc ih hok ht hs

theorem exec_act {c : Config G T} {i : Nat} {a : A} {t t' : T} {g : G} (hi : c.pool[i]? = some t)
    (hact : M.act a c.shared t = some (g, t')) :
    M.exec c (.act i a) = some ⟨g, c.pool.set i t'⟩ :=
  exec_act_eq_some.mpr ⟨t, g, t', hi, hact, rfl⟩

/-- **A thread on its own.**  While thread `i` is busy it can take a step, and has less to do
    then: so it comes to where it is not busy, whatever the others wait for. -/
theorem exists_reach_of_less {α : Type} {less : α → α → Prop} (hwf : WellFounded less)
    (left : T → α) (busy : T → Prop) (a : A) (i : Nat) (I : Config G T → Prop)
    (hstep : ∀ c t, I c → c.pool[i]? = some t → busy t →
      ∃ g t', M.act a c.shared t = some (g, t') ∧ less (left t') (left t) ∧
        I ⟨g, c.pool.set i t'⟩) :
    ∀ (c : Config G T) (t : T), I c → c.pool[i]? = some t →
      ∃ c' t', M.Reach (fun _ e => e = .act i a) c c' ∧ c'.pool[i]? = some t' ∧ ¬ busy t' := by
  intro c t hI hi
  induction hleft : left t using hwf.induction generalizing c t with
  | _ n ih =>
    by_cases hbusy : busy t
    · obtain ⟨g, t', hact, hless, hI'⟩ := hstep c t hI hi hbusy
      have hlt := (List.getElem?_eq_some_iff.mp hi).1
      have hexec := exec_act hi hact
      obtain ⟨c', u, hreach, hu, hidle⟩ := ih (left t') (hleft ▸ hless) ⟨g, c.pool.set i t'⟩ t' hI'
        (List.getElem?_set_self hlt) rfl
      exact ⟨c', u, Reach.trans (.step .init rfl hexec) hreach, hu, hidle⟩
    · exact ⟨c, t, .init, hi, hbusy⟩

end Machine

/-! ### Sums over the threads -/

/-- The sum of a weight over all threads. -/
def total (w : T → Nat) : List T → Nat
  | [] => 0
  | t :: pool => w t + total w pool

@[simp] theorem total_nil (w : T → Nat) : total w [] = 0 := rfl

theorem total_cons (w : T → Nat) (t : T) (pool : List T) :
    total w (t :: pool) = w t + total w pool := rfl

@[simp] theorem total_append (w : T → Nat) (pool : List T) (t : T) :
    total w (pool ++ [t]) = total w pool + w t := by
  induction pool with
  | nil => simp [total_cons]
  | cons u pool ih =>
    simp only [List.cons_append, total_cons, ih]
    omega

/-- The sum over all threads but the one at position `i`. -/
def others (w : T → Nat) (pool : List T) (i : Nat) : Nat := total w (pool.eraseIdx i)

theorem others_cons_zero (w : T → Nat) (t : T) (pool : List T) :
    others w (t :: pool) 0 = total w pool := rfl

theorem others_cons_succ (w : T → Nat) (t : T) (pool : List T) (i : Nat) :
    others w (t :: pool) (i + 1) = w t + others w pool i := rfl

/-- Thread `i` and the others make up the sum. -/
theorem total_eq_others (w : T → Nat) {pool : List T} {i : Nat} {t : T}
    (h : pool[i]? = some t) : total w pool = others w pool i + w t := by
  induction pool generalizing i with
  | nil => simp at h
  | cons u pool ih =>
    cases i with
    | zero =>
      simp only [List.getElem?_cons_zero, Option.some.injEq] at h
      subst h
      rw [total_cons, others_cons_zero]
      omega
    | succ i =>
      simp only [List.getElem?_cons_succ] at h
      have hrest := ih h
      rw [total_cons, others_cons_succ]
      omega

/-- A step of thread `i` leaves the share of the others alone. -/
theorem total_set (w : T → Nat) {pool : List T} {i : Nat} {t : T} (t' : T)
    (h : pool[i]? = some t) : total w (pool.set i t') = others w pool i + w t' := by
  have hlt := (List.getElem?_eq_some_iff.mp h).1
  have herase : others w (pool.set i t') i = others w pool i :=
    congrArg (total w) (List.eraseIdx_set_eq ..)
  rw [total_eq_others w (List.getElem?_set_self hlt), herase]

/-- One thread's weight is part of the sum. -/
theorem le_total (w : T → Nat) {pool : List T} {i : Nat} {t : T} (h : pool[i]? = some t) :
    w t ≤ total w pool := by
  rw [total_eq_others w h]
  omega

/-- Another thread's weight is part of the share of the others. -/
theorem le_others (w : T → Nat) {pool : List T} {i j : Nat} {t : T} (hji : j ≠ i)
    (h : pool[j]? = some t) : w t ≤ others w pool i := by
  rcases Nat.lt_or_ge j i with hlt | hge
  · refine le_total w (i := j) ?_
    rw [List.getElem?_eraseIdx_of_lt hlt]
    exact h
  · refine le_total w (i := j - 1) ?_
    rw [List.getElem?_eraseIdx_of_ge (by omega), Nat.sub_add_cancel (by omega)]
    exact h

theorem total_add (w w' : T → Nat) (pool : List T) :
    total (fun t => w t + w' t) pool = total w pool + total w' pool := by
  induction pool with
  | nil => rfl
  | cons t pool ih =>
    simp only [total_cons, ih]
    omega

theorem others_add (w w' : T → Nat) (pool : List T) (i : Nat) :
    others (fun t => w t + w' t) pool i = others w pool i + others w' pool i :=
  total_add w w' _

theorem total_le_total {w w' : T → Nat} {pool : List T} (h : ∀ t ∈ pool, w t ≤ w' t) :
    total w pool ≤ total w' pool := by
  induction pool with
  | nil => exact Nat.le_refl _
  | cons t pool ih =>
    have ht := h t List.mem_cons_self
    have hrest := ih fun u hu => h u (List.mem_cons_of_mem t hu)
    rw [total_cons, total_cons]
    omega

/-- The share of the others grows with their weights. -/
theorem others_le_others {w w' : T → Nat} {pool : List T} {i : Nat}
    (h : ∀ j t, j ≠ i → pool[j]? = some t → w t ≤ w' t) :
    others w pool i ≤ others w' pool i := by
  induction pool generalizing i with
  | nil => exact Nat.le_refl _
  | cons u pool ih =>
    cases i with
    | zero =>
      apply total_le_total
      intro t ht
      obtain ⟨j, hj⟩ := List.mem_iff_getElem?.mp ht
      exact h (j + 1) t (by omega) hj
    | succ i =>
      have hu := h 0 u (by omega) rfl
      have hrest := ih (i := i) fun j t hji hj => h (j + 1) t (by omega) hj
      rw [others_cons_succ, others_cons_succ]
      omega

theorem total_eq_zero {w : T → Nat} {pool : List T} (h : ∀ t ∈ pool, w t = 0) :
    total w pool = 0 := by
  induction pool with
  | nil => rfl
  | cons t pool ih =>
    have ht := h t List.mem_cons_self
    have hrest := ih fun u hu => h u (List.mem_cons_of_mem t hu)
    rw [total_cons]
    omega

theorem total_le_length {w : T → Nat} (pool : List T) (h : ∀ t, w t ≤ 1) :
    total w pool ≤ pool.length := by
  induction pool with
  | nil => exact Nat.le_refl _
  | cons t pool ih =>
    have ht := h t
    rw [total_cons, List.length_cons]
    omega

/-- A positive sum has a thread with a positive weight. -/
theorem exists_of_total_pos {w : T → Nat} {pool : List T} (h : 0 < total w pool) :
    ∃ (i : Nat) (t : T), pool[i]? = some t ∧ 0 < w t := by
  by_contra hnone
  have hzero : total w pool = 0 := by
    apply total_eq_zero
    intro t ht
    obtain ⟨i, hi⟩ := List.mem_iff_getElem?.mp ht
    by_contra hpos
    exact hnone ⟨i, t, hi, by omega⟩
  omega

theorem exists_of_others_pos {w : T → Nat} {pool : List T} {i : Nat} (h : 0 < others w pool i) :
    ∃ (j : Nat) (t : T), j ≠ i ∧ pool[j]? = some t ∧ 0 < w t := by
  obtain ⟨k, t, hk, hpos⟩ := exists_of_total_pos h
  obtain ⟨j, hji, hj⟩ := List.mem_eraseIdx_iff_getElem?.mp (List.mem_of_getElem? hk)
  exact ⟨j, t, hji, hj, hpos⟩

/-- The other threads weigh nothing when each of them does. -/
theorem others_eq_zero_of {w : T → Nat} {pool : List T} {i : Nat}
    (h : ∀ j t, j ≠ i → pool[j]? = some t → w t = 0) : others w pool i = 0 := by
  have hle : others w pool i ≤ others (fun _ => 0) pool i :=
    others_le_others fun j t hji hj => Nat.le_of_eq (h j t hji hj)
  have hzero : others (fun _ => 0) pool i = 0 := total_eq_zero fun _ _ => rfl
  omega

/-! ### Sums of any weight

An invariant over several weights is stated over `sum`, which takes a weight to its sum: the
sum over all threads, or what thread `i` adds to the share of the others. -/

/-- `sum` grows with the weight. -/
def Mono (sum : (T → Nat) → Nat) : Prop :=
  ∀ w w' : T → Nat, (∀ t, w t ≤ w' t) → sum w ≤ sum w'

theorem mono_others (pool : List T) (i : Nat) : Mono fun w => others w pool i :=
  fun _ _ h => others_le_others fun _ t _ _ => h t

theorem mono_total (pool : List T) : Mono fun w => total w pool :=
  fun _ _ h => total_le_total fun t _ => h t

/-- Where all threads weigh nothing, the others do. -/
theorem others_eq_zero {w : T → Nat} {pool : List T} {i : Nat} {t : T} (hi : pool[i]? = some t)
    (h : ∀ u ∈ pool, w u = 0) : others w pool i = 0 := by
  have hsum := total_eq_zero h
  rw [total_eq_others _ hi] at hsum
  omega

/-! ### Assertions about each thread -/

/-- `P` holds of every thread, under its name. -/
def Each (P : Nat → T → Prop) (pool : List T) : Prop :=
  ∀ i t, pool[i]? = some t → P i t

theorem each_nil (P : Nat → T → Prop) : Each P [] := by
  intro i t h
  simp at h

/-- A new thread joins: the old ones must survive what its start did. -/
theorem Each.append {P Q : Nat → T → Prop} {pool : List T} {t : T} (h : Each P pool)
    (hold : ∀ i u, pool[i]? = some u → P i u → Q i u) (hnew : Q pool.length t) :
    Each Q (pool ++ [t]) := by
  intro i u hu
  rcases Nat.lt_trichotomy i pool.length with hi | hi | hi
  · rw [List.getElem?_append_left hi] at hu
    exact hold i u hu (h i u hu)
  · subst hi
    simp only [List.getElem?_concat_length, Option.some.injEq] at hu
    subst hu
    exact hnew
  · rw [List.getElem?_eq_none (by simp; omega)] at hu
    cases hu

/-- Thread `i` steps: the others must survive what the step did. -/
theorem Each.set {P Q : Nat → T → Prop} {pool : List T} {i : Nat} {t' : T} (h : Each P pool)
    (hold : ∀ j u, j ≠ i → pool[j]? = some u → P j u → Q j u) (hnew : Q i t') :
    Each Q (pool.set i t') := by
  intro j u hu
  rw [List.getElem?_set] at hu
  split at hu
  · rename_i hij
    split at hu
    · simp only [Option.some.injEq] at hu
      subst hij hu
      exact hnew
    · cases hu
  · rename_i hij
    exact hold j u (fun h => hij h.symm) hu (h j u hu)

/-- After a step of thread `i` a thread is the new one, or another that was there. -/
theorem eq_or_exists_of_mem_set {pool : List T} {i : Nat} {t' u : T} (h : u ∈ pool.set i t') :
    u = t' ∨ ∃ j, j ≠ i ∧ pool[j]? = some u := by
  obtain ⟨j, hj⟩ := List.mem_iff_getElem?.mp h
  rw [List.getElem?_set] at hj
  by_cases hij : i = j
  · rw [if_pos hij] at hj
    split at hj
    · exact .inl (Option.some.inj hj).symm
    · cases hj
  · rw [if_neg hij] at hj
    exact .inr ⟨j, fun heq => hij heq.symm, hj⟩

/-- Some thread meets `p` after a step of thread `i` if that thread does, or another. -/
theorem any_set (p : T → Bool) {pool : List T} {i : Nat} {t : T} (t' : T)
    (h : pool[i]? = some t) : (pool.set i t').any p = (p t' || (pool.eraseIdx i).any p) := by
  induction pool generalizing i with
  | nil => cases h
  | cons u pool ih =>
    cases i with
    | zero => rfl
    | succ i =>
      rw [List.getElem?_cons_succ] at h
      rw [List.set_cons_succ, List.eraseIdx_cons_succ, List.any_cons, List.any_cons, ih h,
        Bool.or_left_comm]

/-! ### Names -/

/-- What the calls make under their own names.  `yet t` is the name under which
    thread `t` has still to make something, and `made g m` says that the thing of
    call `m` exists: then a thread's name is its own, and its thing and those of
    the calls to come do not exist yet. -/
structure Fresh (yet : T → Option Nat) (made : G → Nat → Prop) (c : Config G T) : Prop where
  own : Each (fun i t => ∀ m, yet t = some m → m = i ∧ ¬ made c.shared m) c.pool
  new : ∀ m, c.pool.length ≤ m → ¬ made c.shared m

/-- **Fresh names.**  A call gets its name when it starts, keeps it until it makes
    its thing, and nothing is made but by the call it is named after. -/
theorem Machine.Reach.fresh {M : Machine G T C A} {ok : Config G T → Event C A → Prop}
    {c₀ c : Config G T} {yet : T → Option Nat} {made : G → Nat → Prop}
    (hinit : Fresh yet made c₀)
    (hstart : ∀ {me call g g' t}, M.start me call g = some (g', t) →
      (∀ m, yet t = some m → m = me) ∧ ∀ m, made g' m → made g m)
    (hact : ∀ {a g t g' t'}, M.act a g t = some (g', t') →
      (yet t' = none ∨ yet t' = yet t) ∧
      ∀ m, made g' m → made g m ∨ (yet t = some m ∧ yet t' = none))
    (h : M.Reach ok c₀ c) : Fresh yet made c := by
  refine Machine.Reach.invariant (fun c => Fresh yet made c) hinit ?_ ?_ h
  · intro c call g t _ hI _ hs
    obtain ⟨hname, hmade⟩ := hstart hs
    constructor
    · refine hI.own.append (fun i u _ hu m hm => ?_) (fun m hm => ?_)
      · obtain ⟨hmi, hnot⟩ := hu m hm
        exact ⟨hmi, fun hmk => hnot (hmade m hmk)⟩
      · have hme := hname m hm
        exact ⟨hme, fun hmk => hI.new m (by omega) (hmade m hmk)⟩
    · intro m hm hmk
      simp only [List.length_append, List.length_singleton] at hm
      exact hI.new m (by omega) (hmade m hmk)
  · intro c i a t g t' _ hI _ hi hs
    obtain ⟨hyet, hmade⟩ := hact hs
    have hkeep : ∀ m, m ≠ i → made g m → made c.shared m := by
      intro m hne hmk
      rcases hmade m hmk with hold | ⟨hborn, -⟩
      · exact hold
      · exact absurd (hI.own i t hi m hborn).1 hne
    constructor
    · refine hI.own.set (fun j u hji _ hu m hm => ?_) (fun m hm => ?_)
      · obtain ⟨rfl, hnot⟩ := hu m hm
        exact ⟨rfl, fun hmk => hnot (hkeep m hji hmk)⟩
      · rcases hyet with hnone | hsame
        · rw [hnone] at hm
          cases hm
        · rw [hsame] at hm
          obtain ⟨rfl, hnot⟩ := hI.own i t hi m hm
          refine ⟨rfl, fun hmk => ?_⟩
          rcases hmade m hmk with hold | ⟨-, hnone⟩
          · exact hnot hold
          · rw [hsame, hm] at hnone
            cases hnone
    · intro m hm hmk
      have hlt := (List.getElem?_eq_some_iff.mp hi).1
      rw [List.length_set] at hm
      exact hI.new m hm (hkeep m (by omega) hmk)

end VmkLinux.Interleave
