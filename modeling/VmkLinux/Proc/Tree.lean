/-
  VmkLinux/Proc/Tree.lean
  =======================
  **The tree of proc entries** (`vmklinux26/vmware/linux_proc.c`): `linuxEntries` is a tree keyed
  by full names, and the `subdir` lists are the same tree.

  A directory that is created is looked up by the names of the `subdir` list as far as they go
  (`findPrefix`), and so is an entry that `LinuxProcRemoveEntry` did not remove; the flag
  `deleted` is set before the children are looked at.  A call that runs into none of this
  (`orderly`) does to the tree what its name and parent say, and nothing else (`Meets`).
-/
import VmkLinux.Proc.Model
import Mathlib.Data.List.Nodup

namespace VmkLinux.Proc

/-! ### The tree -/

/-- The names lead from `p` down to `q`. -/
def Leads (entries : List LinuxProcEntry) : List Name → Nat → Nat → Prop
  | [], p, q => p = q
  | name :: names, p, q => ∃ r, ⟨name, p, r⟩ ∈ entries ∧ Leads entries names r q

structure State.Tree (s : State) : Prop where
  /-- An entry is known by its name and its parent, -/
  keyed : s.linuxEntries.Pairwise fun e f => ¬ (e.name = f.name ∧ e.parent = f.parent)
  /-- and by its `proc_dir_entry`. -/
  once : (s.linuxEntries.map LinuxProcEntry.drvEntry).Nodup
  rooted : ∀ e ∈ s.linuxEntries, isStatic e.parent = true ∨
    ∃ f ∈ s.linuxEntries, f.drvEntry = e.parent
  acyclic : ∀ e ∈ s.linuxEntries, e.parent < e.drvEntry
  /-- The `subdir` lists are those of `linuxEntries`. -/
  lists : ∀ p, (s.pde p).subdir =
    (s.linuxEntries.filter fun e => e.parent = p).map LinuxProcEntry.drvEntry
  names : ∀ e ∈ s.linuxEntries, (s.pde e.drvEntry).name = e.name ∧
    (s.pde e.drvEntry).parent = some e.parent ∧ (s.pde e.drvEntry).deleted = false
  live : ∀ e ∈ s.linuxEntries, e.drvEntry ∉ s.freed
  fresh : (∀ e ∈ s.linuxEntries, isStatic e.drvEntry = false ∧ e.drvEntry < s.nextPde) ∧
    5 ≤ s.nextPde ∧ ∀ q ∈ s.freed, q < s.nextPde

/-- The parent `p`, with a name, is where the entry belongs; with a parent that is not `NULL`
    only the last component of a path counts. -/
def State.Under (s : State) (name : Name) (parent : Option Nat) (p : Nat) : Prop :=
  match parent with
  | some q => q = p
  | none => Leads s.linuxEntries (components name).dropLast procRoot p

def lastName (name : Name) : Name := (components name).getLastD []

/-- Nothing has happened to the tree, nor to a `proc_dir_entry` that there was. -/
def State.Same (s s' : State) : Prop :=
  s'.linuxEntries = s.linuxEntries ∧
    ∀ q < s.nextPde, s'.pde q = s.pde q ∧ (q ∈ s'.freed ↔ q ∈ s.freed)

/-- There is memory for an entry. -/
def Memory.enough (memory : Memory) : Bool := memory.vmkEntry && memory.pde && memory.entry

/-- What a call that creates is for: `r` is what it returns. -/
def State.Created (isVmvisor : Bool) (s : State) (name : Name) (isDir : Bool)
    (parent : Option Nat) (memory : Memory) (r : Option Nat) (s' : State) : Prop :=
  match r with
  | none => s.Same s' ∧ (memory.enough = false ∨ (∀ p, ¬ s.Under name parent p) ∨
      isVmvisor = false ∧ s.Under name parent procBus)
  | some q => ∃ p, s.Under name parent p ∧
      ((isDir = true ∧ ⟨lastName name, p, q⟩ ∈ s.linuxEntries ∧ s.Same s') ∨
        (memory.enough = true ∧ q = s.nextPde ∧
          s'.linuxEntries = ⟨lastName name, p, q⟩ :: s.linuxEntries ∧
          ∀ q' < s.nextPde, (s'.pde q').deleted = (s.pde q').deleted ∧
            (q' ∈ s'.freed ↔ q' ∈ s.freed)))

/-- What `remove_proc_entry` is for. -/
def State.Removed (s : State) (name : Name) (parent : Option Nat) (s' : State) : Prop :=
  (∀ q, Leads s.linuxEntries (components name) (parent.getD procRoot) q →
    s'.linuxEntries = s.linuxEntries.filter (fun e => e.drvEntry ≠ q) ∧
      ∀ q', (q' ∈ s'.freed ↔ q' = q ∨ q' ∈ s.freed) ∧
        (q' ≠ q → (s'.pde q').deleted = (s.pde q').deleted)) ∧
  ((∀ q, ¬ Leads s.linuxEntries (components name) (parent.getD procRoot) q) → s.Same s')

def State.Meets (isVmvisor : Bool) (s : State) (call : Call) (r : Option Nat) (s' : State) :
    Prop :=
  match call with
  | .createProcEntry name isDir parent memory =>
      s.Created isVmvisor name isDir parent memory r s'
  | .procMkdir name parent memory => s.Created isVmvisor name true parent memory r s'
  | .removeProcEntry name parent => s.Removed name parent s'

/-! ### The calls that are looked at -/

/-- A parent that is in the tree, or `NULL`. -/
def State.liveParent (s : State) (parent : Option Nat) : Bool :=
  parent.all fun p => isStatic p || (s.findEntryByPtr p).isSome

/-- `MAX_NAME_LEN` is more than each component has. -/
def shortNames (name : Name) : Bool :=
  (components name).all fun c => decide (c.length < maxNameLen)

def Call.name : Call → Name
  | .createProcEntry name .. | .procMkdir name .. | .removeProcEntry name .. => name

def Call.parent : Call → Option Nat
  | .createProcEntry _ _ parent _ | .procMkdir _ parent _ | .removeProcEntry _ parent => parent

def State.legal (s : State) (call : Call) : Bool :=
  shortNames call.name && s.liveParent call.parent

/-- A path fits into `parentName`.  A directory has a parent, and what is taken for it has its
    name; a file has a name that its parent does not have an entry of. -/
def State.orderlyCreate (s : State) (name : Name) (isDir : Bool) (parent : Option Nat) : Bool :=
  let target := s.resolve name parent
  (parent.isSome || decide (name.length < maxNameLen)) &&
    match target.1 with
    | none => !isDir
    | some p =>
        if isDir then (s.findPrefix target.2 p).all fun q => decide ((s.pde q).name = target.2)
        else (s.findEntry target.2 p).isNone

/-- An entry that is removed has no children, and is one of `parent` itself if that is not
    `NULL`.  Where there is none, no name of a `subdir` list is the beginning of `name`. -/
def State.orderlyRemove (s : State) (name : Name) (parent : Option Nat) : Bool :=
  match s.findEntryByPath name parent with
  | some lpe => (s.pde lpe.drvEntry).subdir.isEmpty && parent.all fun p => decide (p = lpe.parent)
  | none => (s.findPrefix name (parent.getD procRoot)).isNone

def State.orderly (s : State) : Call → Bool
  | .createProcEntry name isDir parent _ => s.orderlyCreate name isDir parent
  | .procMkdir name parent _ => s.orderlyCreate name true parent
  | .removeProcEntry name parent => s.orderlyRemove name parent

/-! ### Looking up -/

section

variable {s : State} {p q : Nat} {name : Name}

theorem State.Tree.eq_of_drvEntry (h : s.Tree) {e f : LinuxProcEntry} (he : e ∈ s.linuxEntries)
    (hf : f ∈ s.linuxEntries) (heq : e.drvEntry = f.drvEntry) : e = f :=
  List.inj_on_of_nodup_map h.once he hf heq

theorem State.Tree.eq_of_name (h : s.Tree) {e f : LinuxProcEntry} (he : e ∈ s.linuxEntries)
    (hf : f ∈ s.linuxEntries) (hname : e.name = f.name) (hparent : e.parent = f.parent) :
    e = f := by
  by_contra hne
  have hpair := List.Pairwise.forall_of_forall_of_flip (R := fun e f : LinuxProcEntry =>
    e = f ∨ ¬ (e.name = f.name ∧ e.parent = f.parent)) (fun e _ => Or.inl rfl)
    (h.keyed.imp fun hef => Or.inr hef)
    (h.keyed.imp fun hef => Or.inr fun hfe => hef ⟨hfe.1.symm, hfe.2.symm⟩) he hf
  rcases hpair with heq | hdiff
  · exact hne heq
  · exact hdiff ⟨hname, hparent⟩

/-- `LinuxProcFindEntryByPtr` finds the entry. -/
theorem State.Tree.findEntryByPtr_eq_some (h : s.Tree) {e : LinuxProcEntry} :
    s.findEntryByPtr q = some e ↔ e ∈ s.linuxEntries ∧ e.drvEntry = q := by
  constructor
  · intro hfind
    have hq := List.find?_some hfind
    exact ⟨List.mem_of_find?_eq_some hfind, by simpa using hq⟩
  · rintro ⟨he, rfl⟩
    cases hfind : s.findEntryByPtr e.drvEntry with
    | none =>
      have hnone := List.find?_eq_none.mp hfind e he
      simp at hnone
    | some f =>
      have hq := List.find?_some hfind
      simp only [decide_eq_true_eq] at hq
      rw [h.eq_of_drvEntry (List.mem_of_find?_eq_some hfind) he hq]

/-- A round of `LinuxProcFindEntryByPath` finds the entry. -/
theorem State.Tree.findEntry_eq_some (h : s.Tree) (hname : name.length < maxNameLen)
    {e : LinuxProcEntry} :
    s.findEntry name p = some e ↔ e ∈ s.linuxEntries ∧ e.name = name ∧ e.parent = p := by
  have htake : name.take maxNameLen = name := List.take_of_length_le (Nat.le_of_lt hname)
  constructor
  · intro hfind
    have hkey := List.find?_some hfind
    rw [htake, decide_eq_true_eq] at hkey
    exact ⟨List.mem_of_find?_eq_some hfind, hkey⟩
  · rintro ⟨he, hkey⟩
    cases hfind : s.findEntry name p with
    | none =>
      have hnone := List.find?_eq_none.mp hfind e he
      rw [htake, decide_eq_true_eq] at hnone
      exact absurd hkey hnone
    | some f =>
      have hf := List.find?_some hfind
      rw [htake, decide_eq_true_eq] at hf
      rw [h.eq_of_name (List.mem_of_find?_eq_some hfind) he (hf.1.trans hkey.1.symm)
        (hf.2.trans hkey.2.symm)]

theorem State.walk_cons_cons (name name' : Name) (names : List Name) (p : Nat) :
    s.walk (name :: name' :: names) p =
      (s.findEntry name p).bind fun e => s.walk (name' :: names) e.drvEntry := by
  rw [State.walk]
  cases s.findEntry name p with
  | none => rfl
  | some e => rfl
  intro hnil
  cases hnil

/-- `LinuxProcFindEntryByPath` finds what the names lead to. -/
theorem State.Tree.walk_eq_some (h : s.Tree) {names : List Name} (hne : names ≠ [])
    (hshort : ∀ c ∈ names, c.length < maxNameLen) {e : LinuxProcEntry} :
    s.walk names p = some e ↔ e ∈ s.linuxEntries ∧ Leads s.linuxEntries names p e.drvEntry := by
  induction names generalizing p with
  | nil => exact absurd rfl hne
  | cons name names ih =>
    have hname := hshort name List.mem_cons_self
    cases names with
    | nil =>
      rw [State.walk, h.findEntry_eq_some hname]
      constructor
      · rintro ⟨he, rfl, rfl⟩
        exact ⟨he, e.drvEntry, he, rfl⟩
      · rintro ⟨he, r, hr, rfl⟩
        rw [← h.eq_of_drvEntry hr he rfl]
        exact ⟨hr, rfl, rfl⟩
    | cons name' names =>
      have hrest := fun {p} => ih (p := p) (List.cons_ne_nil _ _) fun c hc =>
        hshort c (List.mem_cons_of_mem _ hc)
      rw [State.walk_cons_cons, Option.bind_eq_some_iff]
      constructor
      · rintro ⟨f, hf, hwalk⟩
        obtain ⟨hmem, rfl, rfl⟩ := (h.findEntry_eq_some hname).mp hf
        obtain ⟨he, hleads⟩ := hrest.mp hwalk
        exact ⟨he, f.drvEntry, hmem, hleads⟩
      · rintro ⟨he, r, hr, hleads⟩
        exact ⟨⟨name, p, r⟩, (h.findEntry_eq_some hname).mpr ⟨hr, rfl, rfl⟩,
          hrest.mpr ⟨he, hleads⟩⟩

/-- Names lead to one entry at most. -/
theorem State.Tree.leads_unique (h : s.Tree) {names : List Name} {q' : Nat}
    (hq : Leads s.linuxEntries names p q) (hq' : Leads s.linuxEntries names p q') : q = q' := by
  induction names generalizing p with
  | nil => exact hq.symm.trans hq'
  | cons name names ih =>
    obtain ⟨r, hr, hrest⟩ := hq
    obtain ⟨r', hr', hrest'⟩ := hq'
    have heq := congrArg LinuxProcEntry.drvEntry (h.eq_of_name hr hr' rfl rfl)
    subst heq
    exact ih hrest hrest'

/-- Names that lead anywhere lead to an entry. -/
theorem exists_of_leads {entries : List LinuxProcEntry} {names : List Name} (hne : names ≠ [])
    (h : Leads entries names p q) : ∃ e ∈ entries, e.drvEntry = q := by
  induction names generalizing p with
  | nil => exact absurd rfl hne
  | cons name names ih =>
    obtain ⟨r, hr, hrest⟩ := h
    cases names with
    | nil => exact ⟨_, hr, hrest⟩
    | cons name' names => exact ih (List.cons_ne_nil _ _) hrest

end

/-! ### Paths -/

theorem components_ne_nil (name : Name) : components name ≠ [] := List.splitOn_ne_nil '/' name

/-- A name with a slash is more than its last component. -/
theorem dropLast_components_ne_nil {name : Name} (hslash : '/' ∈ name) :
    (components name).dropLast ≠ [] := by
  obtain ⟨front, rest, rfl⟩ := List.append_of_mem hslash
  intro hnil
  have hlen := congrArg List.length hnil
  have hfront := List.length_pos_iff.mpr (components_ne_nil front)
  have hrest := List.length_pos_iff.mpr (components_ne_nil rest)
  rw [components, List.splitOn_append_cons_self, List.length_dropLast, List.length_append,
    List.length_nil] at hlen
  rw [components] at hfront hrest
  omega

theorem dropLast_components {name : Name} (hslash : '/' ∉ name) :
    (components name).dropLast = [] := by
  rw [components, List.splitOn_eq_singleton hslash, List.dropLast_singleton]

theorem lastName_of_not_mem {name : Name} (hslash : '/' ∉ name) : lastName name = name := by
  rw [lastName, components, List.splitOn_eq_singleton hslash]
  rfl

theorem length_of_mem_components {name c : Name} (h : shortNames name = true)
    (hc : c ∈ components name) : c.length < maxNameLen := by
  have hall := List.all_eq_true.mp h c hc
  exact of_decide_eq_true hall

theorem length_lastName {name : Name} (h : shortNames name = true) :
    (lastName name).length < maxNameLen := by
  apply length_of_mem_components h
  rw [lastName, List.getLastD_eq_getLast?, List.getLast?_eq_some_getLast (components_ne_nil name)]
  exact List.getLast_mem _

section

variable {s : State} {name : Name} {parent : Option Nat} {p : Nat}

/-- A parent that is in the tree. -/
def State.Live (s : State) (p : Nat) : Prop :=
  isStatic p = true ∨ ∃ e ∈ s.linuxEntries, e.drvEntry = p

/-- **The parent of a new entry**, and its name. -/
theorem State.Tree.resolve_eq (h : s.Tree) (hshort : shortNames name = true)
    (hlive : s.liveParent parent = true)
    (hfits : (parent.isSome || decide (name.length < maxNameLen)) = true) :
    (∃ p, s.Live p ∧ s.Under name parent p ∧ s.resolve name parent = (some p, lastName name)) ∨
      ((∀ p, ¬ s.Under name parent p) ∧ s.resolve name parent = (none, name)) := by
  cases parent with
  | some p =>
    refine .inl ⟨p, ?_, rfl, rfl⟩
    simp only [State.liveParent, Option.all_some, Bool.or_eq_true] at hlive
    rcases hlive with hstatic | hfound
    · exact .inl hstatic
    · obtain ⟨e, he⟩ := Option.isSome_iff_exists.mp hfound
      exact .inr ⟨e, h.findEntryByPtr_eq_some.mp he⟩
  | none =>
    simp only [Option.isSome_none, Bool.false_or, decide_eq_true_eq] at hfits
    have htake : name.take (maxNameLen - 1) = name :=
      List.take_of_length_le (Nat.le_sub_one_of_lt hfits)
    simp only [State.resolve, htake]
    by_cases hslash : '/' ∈ name
    · have hne := dropLast_components_ne_nil hslash
      have hwalk := fun e => h.walk_eq_some (p := procRoot) hne (fun c hc =>
        length_of_mem_components hshort (List.dropLast_subset _ hc)) (e := e)
      rw [if_pos hslash]
      cases hfound : s.walk (components name).dropLast procRoot with
      | some e =>
        obtain ⟨he, hleads⟩ := (hwalk e).mp hfound
        exact .inl ⟨e.drvEntry, .inr ⟨e, he, rfl⟩, hleads, rfl⟩
      | none =>
        refine .inr ⟨fun p hleads => ?_, rfl⟩
        obtain ⟨e, he, rfl⟩ := exists_of_leads hne hleads
        rw [(hwalk e).mpr ⟨he, hleads⟩] at hfound
        cases hfound
    · rw [if_neg hslash, lastName_of_not_mem hslash]
      refine .inl ⟨procRoot, .inl rfl, ?_, rfl⟩
      simp only [State.Under, dropLast_components hslash]
      rfl

/-- `LinuxProcFindEntryByPath` finds the entry that the name leads to. -/
theorem State.Tree.findEntryByPath_eq_some (h : s.Tree) (hshort : shortNames name = true)
    {e : LinuxProcEntry} :
    s.findEntryByPath name parent = some e ↔
      e ∈ s.linuxEntries ∧
        Leads s.linuxEntries (components name) (parent.getD procRoot) e.drvEntry :=
  h.walk_eq_some (components_ne_nil name) fun _ hc => length_of_mem_components hshort hc

/-- Where the name leads nowhere it finds nothing. -/
theorem State.Tree.findEntryByPath_eq_none (h : s.Tree) (hshort : shortNames name = true)
    (hnone : s.findEntryByPath name parent = none) (q : Nat) :
    ¬ Leads s.linuxEntries (components name) (parent.getD procRoot) q := by
  intro hleads
  obtain ⟨e, he, rfl⟩ := exists_of_leads (components_ne_nil name) hleads
  rw [(h.findEntryByPath_eq_some hshort).mpr ⟨he, hleads⟩] at hnone
  cases hnone

theorem State.Tree.live_lt (h : s.Tree) (hp : s.Live p) : p < s.nextPde := by
  rcases hp with hstatic | ⟨e, he, rfl⟩
  · have hlt := of_decide_eq_true hstatic
    have := h.fresh.2.1
    omega
  · exact (h.fresh.1 e he).2

/-- The parent of a new entry has a `vmk_ProcEntry`, but for `proc_bus`. -/
theorem State.Tree.validParent_eq_false (h : s.Tree) (isVmvisor : Bool) (hp : s.Live p) :
    s.validParent isVmvisor p = false → isVmvisor = false ∧ p = procBus := by
  intro hinvalid
  simp only [State.validParent, Bool.or_eq_false_iff, Bool.and_eq_false_iff,
    decide_eq_false_iff_not, not_or, Bool.not_eq_false'] at hinvalid
  obtain ⟨⟨⟨hroot, hdriver, hnet, hscsi⟩, hbus⟩, hentry⟩ := hinvalid
  rcases hp with hstatic | ⟨e, he, rfl⟩
  · have hlt := of_decide_eq_true hstatic
    simp only [procRoot, procRootDriver, procNet, procScsi, procBus] at *
    have hp : p = 4 := by omega
    subst hp
    exact ⟨hbus.resolve_right fun hne => hne rfl, rfl⟩
  · rw [h.findEntryByPtr_eq_some.mpr ⟨he, rfl⟩, (h.names e he).2.2] at hentry
    rcases hentry with hnone | hdeleted
    · cases hnone
    · cases hdeleted

end

/-! ### A new entry -/

section

variable {s : State} {name : Name} {p q r : Nat}

/-- The state with a new entry. -/
def State.made (s : State) (name : Name) (p : Nat) : State :=
  ((s.allocPde name).attach s.nextPde p).addEntry name p s.nextPde

theorem State.pde_made (name : Name) (hp : p < s.nextPde) (r : Nat) : (s.made name p).pde r =
    if r = p then { s.pde p with subdir := s.nextPde :: (s.pde p).subdir }
    else if r = s.nextPde then { name := name, parent := some p }
    else s.pde r := by
  have hne : p ≠ s.nextPde := by omega
  simp only [State.made, State.addEntry, State.attach, State.setPde, State.allocPde,
    Function.update_apply, if_neg hne, if_true]
  by_cases hr : r = s.nextPde
  · rw [if_pos hr, if_pos hr]
  · rw [if_neg hr, if_neg hr, if_neg hr]

/-- What is attached and detached again is as it was. -/
theorem State.detach_attach (hp : p < s.nextPde) :
    ((s.allocPde name).attach s.nextPde p).detach s.nextPde p = s.allocPde name := by
  have hne : p ≠ s.nextPde := by omega
  have hmem : s.nextPde ∈ (((s.allocPde name).attach s.nextPde p).pde p).subdir := by
    simp [State.attach, State.setPde]
  rw [State.detach, if_pos hmem]
  simp only [State.attach, State.setPde, State.allocPde, State.mk.injEq, and_true]
  funext r
  by_cases hrp : r = p
  · subst hrp
    simp [Function.update_of_ne hne, Function.update_of_ne hne.symm]
  · by_cases hr : r = s.nextPde
    · subst hr
      simp [Function.update_of_ne hrp]
    · simp [Function.update_of_ne hrp, Function.update_of_ne hr]

/-- An entry that came to nothing. -/
def State.unmade (s : State) (name : Name) : State := (s.allocPde name).freePde s.nextPde

theorem State.same_unmade : s.Same (s.unmade name) := by
  refine ⟨rfl, fun q hq => ⟨?_, ?_⟩⟩
  · exact Function.update_of_ne (Nat.ne_of_lt hq) _ _
  · have hne := Nat.ne_of_lt hq
    simp [State.unmade, State.freePde, State.allocPde, hne]

theorem State.same_refl : s.Same s := ⟨rfl, fun _ _ => ⟨rfl, Iff.rfl⟩⟩

/-- A number that is not used has no entries under it. -/
theorem State.Tree.subdir_eq_nil (h : s.Tree) (hr : s.nextPde ≤ r) : (s.pde r).subdir = [] := by
  rw [h.lists, List.map_eq_nil_iff, List.filter_eq_nil_iff]
  intro e he hparent
  have hlt := h.acyclic e he
  have hused := (h.fresh.1 e he).2
  have heq := of_decide_eq_true hparent
  omega

theorem State.Tree.unmade (h : s.Tree) (name : Name) : (s.unmade name).Tree := by
  have hpde : ∀ r, r ≠ s.nextPde → (s.unmade name).pde r = s.pde r := fun r hr =>
    Function.update_of_ne hr _ _
  have hused : ∀ e ∈ s.linuxEntries, e.drvEntry ≠ s.nextPde := fun e he =>
    Nat.ne_of_lt (h.fresh.1 e he).2
  refine ⟨h.keyed, h.once, h.rooted, h.acyclic, fun p => ?_, fun e he => ?_, fun e he => ?_,
    fun e he => ?_, ?_, fun q hq => ?_⟩
  · by_cases hp : p = s.nextPde
    · subst hp
      rw [show (s.unmade name).linuxEntries = s.linuxEntries from rfl, ← h.lists,
        h.subdir_eq_nil (Nat.le_refl _)]
      simp [State.unmade, State.freePde, State.allocPde]
    · rw [hpde p hp]
      exact h.lists p
  · rw [hpde _ (hused e he)]
    exact h.names e he
  · intro hfreed
    rcases List.mem_cons.mp hfreed with heq | hold
    · exact hused e he heq
    · exact h.live e he hold
  · obtain ⟨hstatic, hlt⟩ := h.fresh.1 e he
    exact ⟨hstatic, Nat.lt_succ_of_lt hlt⟩
  · exact Nat.le_succ_of_le h.fresh.2.1
  · rcases List.mem_cons.mp hq with heq | hfreed
    · subst heq
      exact Nat.lt_succ_self _
    · exact Nat.lt_succ_of_lt (h.fresh.2.2 q hfreed)

/-- **A new entry** under a parent that is in the tree, with a name that it has no entry of. -/
theorem State.Tree.made (h : s.Tree) (hp : s.Live p) (hname : name.length < maxNameLen)
    (hnew : ∀ e ∈ s.linuxEntries, e.name = name → e.parent ≠ p) : (s.made name p).Tree := by
  have hlt := h.live_lt hp
  have hpde := s.pde_made name hlt
  have hentries : (s.made name p).linuxEntries = ⟨name, p, s.nextPde⟩ :: s.linuxEntries := by
    rw [State.made, State.addEntry, List.take_of_length_le (Nat.le_of_lt hname)]
    rfl
  have hused : ∀ e ∈ s.linuxEntries, e.drvEntry ≠ s.nextPde := fun e he =>
    Nat.ne_of_lt (h.fresh.1 e he).2
  have hnext : (s.made name p).nextPde = s.nextPde + 1 := rfl
  constructor
  case keyed =>
    rw [hentries]
    refine List.pairwise_cons.mpr ⟨fun e he heq => ?_, h.keyed⟩
    exact hnew e he heq.1.symm heq.2.symm
  case once =>
    rw [hentries, List.map_cons, List.nodup_cons]
    refine ⟨fun hmem => ?_, h.once⟩
    obtain ⟨e, he, heq⟩ := List.mem_map.mp hmem
    exact hused e he heq
  case rooted =>
    rw [hentries]
    intro e he
    have hold : ∀ q, s.Live q → isStatic q = true ∨
        ∃ f ∈ ⟨name, p, s.nextPde⟩ :: s.linuxEntries, f.drvEntry = q := by
      rintro q (hstatic | ⟨f, hf, heq⟩)
      · exact .inl hstatic
      · exact .inr ⟨f, List.mem_cons_of_mem _ hf, heq⟩
    rcases List.mem_cons.mp he with heq | hmem
    · rw [heq]
      exact hold p hp
    · exact hold e.parent (h.rooted e hmem)
  case acyclic =>
    rw [hentries]
    intro e he
    rcases List.mem_cons.mp he with heq | hmem
    · rw [heq]
      exact hlt
    · exact h.acyclic e hmem
  case lists =>
    intro r
    rw [hentries, hpde r, List.filter_cons]
    by_cases hr : r = p
    · subst hr
      rw [if_pos rfl, if_pos (by simp), List.map_cons, ← h.lists]
    · have hother : ¬ (decide (p = r) = true) := fun heq => hr (of_decide_eq_true heq).symm
      rw [if_neg hr, if_neg hother, ← h.lists]
      by_cases hnew : r = s.nextPde
      · rw [if_pos hnew, h.subdir_eq_nil (Nat.le_of_eq hnew.symm)]
      · rw [if_neg hnew]
  case names =>
    rw [hentries]
    intro e he
    rcases List.mem_cons.mp he with heq | hmem
    · rw [heq, hpde, if_neg (Nat.ne_of_gt hlt), if_pos rfl]
      exact ⟨rfl, rfl, rfl⟩
    · rw [hpde, if_neg (hused e hmem)]
      split
      · rename_i heq
        rw [← heq]
        exact h.names e hmem
      · exact h.names e hmem
  case live =>
    rw [hentries]
    intro e he hfreed
    rcases List.mem_cons.mp he with heq | hmem
    · rw [heq] at hfreed
      exact Nat.lt_irrefl _ (h.fresh.2.2 _ hfreed)
    · exact h.live e hmem hfreed
  case fresh =>
    rw [hentries, hnext]
    refine ⟨fun e he => ?_, Nat.le_succ_of_le h.fresh.2.1, fun q hq =>
      Nat.lt_succ_of_lt (h.fresh.2.2 q hq)⟩
    rcases List.mem_cons.mp he with heq | hmem
    · rw [heq]
      have hle := h.fresh.2.1
      exact ⟨by simp only [isStatic, decide_eq_false_iff_not]; omega, Nat.lt_succ_self _⟩
    · exact ⟨(h.fresh.1 e hmem).1, Nat.lt_succ_of_lt (h.fresh.1 e hmem).2⟩

/-- The exits of `LinuxProcCreateEntry` from the allocations on. -/
theorem State.makeEntry_cases (isVmvisor : Bool) (memory : Memory) (name : Name)
    (hp : p < s.nextPde) :
    (memory.enough = true ∧
      s.makeEntry isVmvisor memory name (some p) = (some s.nextPde, s.made name p)) ∨
    ((memory.enough = false ∨ s.validParent isVmvisor p = false) ∧
      (s.makeEntry isVmvisor memory name (some p) = (none, s) ∨
        s.makeEntry isVmvisor memory name (some p) = (none, s.unmade name))) := by
  simp only [State.makeEntry]
  by_cases halloc : memory.vmkEntry = false ∨ memory.pde = false
  · rw [if_pos halloc]
    refine .inr ⟨.inl ?_, .inl rfl⟩
    rcases halloc with hvmk | hpde
    · simp [Memory.enough, hvmk]
    · simp [Memory.enough, hpde]
  · rw [if_neg halloc]
    simp only [not_or, Bool.not_eq_false] at halloc
    by_cases hvalid : s.validParent isVmvisor p = false
    · rw [if_pos hvalid]
      exact .inr ⟨.inr hvalid, .inl rfl⟩
    · rw [if_neg hvalid]
      cases hentry : memory.entry with
      | true =>
        exact .inl ⟨by simp [Memory.enough, halloc, hentry], rfl⟩
      | false =>
        refine .inr ⟨.inl (by simp [Memory.enough, hentry]), .inr ?_⟩
        simp only [State.detach_attach hp]
        rfl

end

/-! ### An entry that is removed -/

section

variable {s : State} {e : LinuxProcEntry}

/-- The state without the entry. -/
def State.without (s : State) (e : LinuxProcEntry) : State :=
  (((s.setPde e.drvEntry fun pde => { pde with deleted := true }).detach e.drvEntry
    e.parent).deleteEntry e).freePde e.drvEntry

theorem State.Tree.mem_subdir (h : s.Tree) (he : e ∈ s.linuxEntries) :
    e.drvEntry ∈ (s.pde e.parent).subdir := by
  rw [h.lists]
  exact List.mem_map.mpr ⟨e, List.mem_filter.mpr ⟨he, decide_eq_true rfl⟩, rfl⟩

theorem State.Tree.pde_without (h : s.Tree) (he : e ∈ s.linuxEntries) (r : Nat) :
    (s.without e).pde r =
      if r = e.parent then
        { s.pde e.parent with subdir := (s.pde e.parent).subdir.erase e.drvEntry }
      else if r = e.drvEntry then { s.pde e.drvEntry with deleted := true, parent := none }
      else s.pde r := by
  have hne : e.parent ≠ e.drvEntry := Nat.ne_of_lt (h.acyclic e he)
  have hmem : e.drvEntry ∈
      ((s.setPde e.drvEntry fun pde => { pde with deleted := true }).pde e.parent).subdir := by
    simp only [State.setPde, Function.update_of_ne hne]
    exact h.mem_subdir he
  rw [State.without, State.detach, if_pos hmem]
  simp only [State.deleteEntry, State.freePde, State.setPde, Function.update_apply, if_neg hne,
    if_true]
  by_cases hr : r = e.drvEntry
  · rw [if_pos hr, if_pos hr]
  · rw [if_neg hr, if_neg hr, if_neg hr]

/-- An entry is on its parent's list once. -/
theorem State.Tree.count_subdir (h : s.Tree) (he : e ∈ s.linuxEntries) :
    (s.pde e.parent).subdir.count e.drvEntry = 1 := by
  refine List.count_eq_one_of_mem ?_ (h.mem_subdir he)
  rw [h.lists]
  exact (List.filter_sublist.map _).nodup h.once

/-- What is on a list has not been freed. -/
theorem State.Tree.not_freed (h : s.Tree) {p q : Nat} (hq : q ∈ (s.pde p).subdir) :
    q ∉ s.freed := by
  rw [h.lists] at hq
  obtain ⟨e, he, rfl⟩ := List.mem_map.mp hq
  exact h.live e (List.mem_of_mem_filter he)

theorem State.Tree.nodup (h : s.Tree) : s.linuxEntries.Nodup := List.Nodup.of_map _ h.once

theorem State.linuxEntries_without (s : State) (e : LinuxProcEntry) :
    (s.without e).linuxEntries = s.linuxEntries.erase e := by
  rw [State.without, State.freePde, State.deleteEntry, State.detach_linuxEntries]
  rfl

theorem State.freed_without (s : State) (e : LinuxProcEntry) :
    (s.without e).freed = e.drvEntry :: s.freed := by
  rw [State.without, State.freePde, State.deleteEntry, State.detach_freed]
  rfl

theorem State.nextPde_without (s : State) (e : LinuxProcEntry) :
    (s.without e).nextPde = s.nextPde := by
  rw [State.without, State.freePde, State.deleteEntry, State.detach_nextPde]
  rfl

/-- Without the entry is without its `proc_dir_entry`. -/
theorem State.Tree.erase_eq (h : s.Tree) (he : e ∈ s.linuxEntries) :
    s.linuxEntries.erase e = s.linuxEntries.filter fun f => f.drvEntry ≠ e.drvEntry := by
  rw [h.nodup.erase_eq_filter]
  apply List.filter_congr
  intro f hf
  by_cases heq : f = e
  · simp [heq]
  · have hne : f.drvEntry ≠ e.drvEntry := fun hdrv => heq (h.eq_of_drvEntry hf he hdrv)
    simp [heq, hne]

/-- The `subdir` list without the entry. -/
theorem State.Tree.erase_subdir (h : s.Tree) (he : e ∈ s.linuxEntries) :
    (s.pde e.parent).subdir.erase e.drvEntry =
      ((s.linuxEntries.erase e).filter fun f => f.parent = e.parent).map
        LinuxProcEntry.drvEntry := by
  have hnodup : ((s.linuxEntries.filter fun f => f.parent = e.parent).map
      LinuxProcEntry.drvEntry).Nodup := (List.filter_sublist.map _).nodup h.once
  rw [h.lists, hnodup.erase_eq_filter, List.filter_map, h.erase_eq he, List.filter_filter,
    List.filter_filter]
  congr 1
  apply List.filter_congr
  intro f _
  rw [Bool.and_comm]
  simp [bne, beq_eq_decide]

/-- **An entry without children is removed.** -/
theorem State.Tree.without (h : s.Tree) (he : e ∈ s.linuxEntries)
    (hempty : (s.pde e.drvEntry).subdir = []) : (s.without e).Tree := by
  have hpde := h.pde_without he
  have hentries := s.linuxEntries_without e
  have hmem : ∀ f, f ∈ (s.without e).linuxEntries ↔ f ≠ e ∧ f ∈ s.linuxEntries := by
    intro f
    rw [hentries]
    exact h.nodup.mem_erase_iff
  -- nothing is under the entry
  have hchild : ∀ f ∈ s.linuxEntries, f.parent ≠ e.drvEntry := by
    intro f hf hparent
    have hsub := h.mem_subdir hf
    rw [hparent, hempty] at hsub
    cases hsub
  have hdrv : ∀ f ∈ (s.without e).linuxEntries, f.drvEntry ≠ e.drvEntry := by
    intro f hf heq
    obtain ⟨hne, hold⟩ := (hmem f).mp hf
    exact hne (h.eq_of_drvEntry hold he heq)
  constructor
  case keyed =>
    rw [hentries]
    exact h.keyed.sublist List.erase_sublist
  case once =>
    rw [hentries]
    exact (List.erase_sublist.map _).nodup h.once
  case rooted =>
    intro f hf
    obtain ⟨-, hold⟩ := (hmem f).mp hf
    rcases h.rooted f hold with hstatic | ⟨g, hg, hparent⟩
    · exact .inl hstatic
    · refine .inr ⟨g, (hmem g).mpr ⟨fun heq => ?_, hg⟩, hparent⟩
      subst heq
      exact hchild f hold hparent.symm
  case acyclic =>
    intro f hf
    exact h.acyclic f ((hmem f).mp hf).2
  case lists =>
    intro r
    rw [hpde, hentries]
    by_cases hr : r = e.parent
    · rw [if_pos hr, hr, ← h.erase_subdir he]
    · have hsame : (s.linuxEntries.erase e).filter (fun f => f.parent = r) =
          s.linuxEntries.filter fun f => f.parent = r := by
        rw [h.nodup.erase_eq_filter, List.filter_filter]
        apply List.filter_congr
        intro f _
        by_cases heq : f = e
        · simp [heq, Ne.symm hr]
        · simp [heq]
      rw [if_neg hr, hsame, ← h.lists]
      split
      · rename_i heq
        rw [heq]
      · rfl
  case names =>
    intro f hf
    obtain ⟨-, hold⟩ := (hmem f).mp hf
    rw [hpde, if_neg (hdrv f hf)]
    split
    · rename_i heq
      rw [← heq]
      exact h.names f hold
    · exact h.names f hold
  case live =>
    intro f hf hmemf
    rw [s.freed_without] at hmemf
    rcases List.mem_cons.mp hmemf with heq | hold
    · exact hdrv f hf heq
    · exact h.live f ((hmem f).mp hf).2 hold
  case fresh =>
    rw [s.nextPde_without, s.freed_without]
    refine ⟨fun f hf => h.fresh.1 f ((hmem f).mp hf).2, h.fresh.2.1, fun q hq => ?_⟩
    rcases List.mem_cons.mp hq with heq | hold
    · rw [heq]
      exact (h.fresh.1 e he).2
    · exact h.fresh.2.2 q hold

end

/-! ### The calls -/

section

variable {s : State} {name : Name} {parent : Option Nat} {isDir : Bool}

/-- `LinuxProcCreateEntry` where it comes to the allocations: the parent `p` has no entry of
    the name. -/
theorem State.Tree.makeEntry (h : s.Tree) (isVmvisor isDir : Bool) (memory : Memory) {p : Nat}
    (hshort : shortNames name = true) (hp : s.Live p) (hunder : s.Under name parent p)
    (hnew : ∀ e ∈ s.linuxEntries, e.name = lastName name → e.parent ≠ p) :
    ∃ r s', s.makeEntry isVmvisor memory (lastName name) (some p) = (r, s') ∧ s'.Tree ∧
      s.Created isVmvisor name isDir parent memory r s' := by
  have hlt := h.live_lt hp
  have hlast := length_lastName hshort
  rcases s.makeEntry_cases isVmvisor memory (lastName name) hlt with
    ⟨henough, hmade⟩ | ⟨hfails, hmade⟩
  · refine ⟨_, _, hmade, h.made hp hlast hnew, p, hunder, .inr ⟨henough, rfl, ?_, ?_⟩⟩
    · rw [State.made, State.addEntry, List.take_of_length_le (Nat.le_of_lt hlast)]
      rfl
    · intro q hq
      refine ⟨?_, Iff.rfl⟩
      rw [s.pde_made _ hlt, if_neg (Nat.ne_of_lt hq)]
      split
      · rename_i heq
        rw [heq]
      · rfl
  · have hwhy : memory.enough = false ∨ (∀ p, ¬ s.Under name parent p) ∨
        isVmvisor = false ∧ s.Under name parent procBus := by
      rcases hfails with hmemory | hinvalid
      · exact .inl hmemory
      · obtain ⟨hvisor, rfl⟩ := h.validParent_eq_false isVmvisor hp hinvalid
        exact .inr (.inr ⟨hvisor, hunder⟩)
    rcases hmade with hsame | hunmade
    · exact ⟨_, _, hsame, h, s.same_refl, hwhy⟩
    · exact ⟨_, _, hunmade, h.unmade _, s.same_unmade, hwhy⟩

/-- What the directory has under a name that it finds. -/
theorem State.Tree.mem_of_findPrefix (h : s.Tree) {p q : Nat}
    (hfind : s.findPrefix name p = some q) :
    ⟨(s.pde q).name, p, q⟩ ∈ s.linuxEntries ∧
      s.findEntryByPtr q = some ⟨(s.pde q).name, p, q⟩ := by
  have hmem := List.mem_of_find?_eq_some hfind
  rw [h.lists] at hmem
  obtain ⟨⟨n, p', q'⟩, hfilter, rfl⟩ := List.mem_map.mp hmem
  obtain ⟨he, hparent⟩ := List.mem_filter.mp hfilter
  have hp := of_decide_eq_true hparent
  subst hp
  have hname := (h.names _ he).1
  rw [hname]
  exact ⟨he, h.findEntryByPtr_eq_some.mpr ⟨he, rfl⟩⟩

/-- Where nothing is found, nothing has the name. -/
theorem State.Tree.ne_of_findPrefix (h : s.Tree) {p : Nat}
    (hfind : s.findPrefix name p = none) :
    ∀ e ∈ s.linuxEntries, e.name = name → e.parent ≠ p := by
  intro e he hname hparent
  subst hname hparent
  have hnone := List.find?_eq_none.mp hfind e.drvEntry (h.mem_subdir he)
  apply hnone
  rw [(h.names e he).1]
  exact List.isPrefixOf_iff_prefix.mpr (List.prefix_refl _)

/-- **A call that creates.** -/
theorem State.Tree.createEntry (h : s.Tree) (isVmvisor : Bool) (memory : Memory)
    (hshort : shortNames name = true) (hlive : s.liveParent parent = true)
    (hok : s.orderlyCreate name isDir parent = true) :
    ∃ r s', s.createEntry isVmvisor memory name parent isDir = some (r, s') ∧ s'.Tree ∧
      s.Created isVmvisor name isDir parent memory r s' := by
  simp only [State.orderlyCreate, Bool.and_eq_true] at hok
  obtain ⟨hfits, hok⟩ := hok
  simp only [State.createEntry]
  rcases h.resolve_eq hshort hlive hfits with ⟨p, hp, hunder, hres⟩ | ⟨hnone, hres⟩
  · simp only [hres] at hok ⊢
    cases isDir with
    | true =>
      simp only [if_true] at hok ⊢
      cases hfind : s.findPrefix (lastName name) p with
      | some q =>
        obtain ⟨hmem, hptr⟩ := h.mem_of_findPrefix hfind
        simp only [hfind, Option.all_some, decide_eq_true_eq] at hok
        rw [hok] at hmem
        refine ⟨some q, s, ?_, h, p, hunder, .inl ⟨rfl, hmem, s.same_refl⟩⟩
        simp only [hptr, Option.map_some]
      | none =>
        obtain ⟨r, s', heq, htree, hmeets⟩ := h.makeEntry isVmvisor true memory
          hshort hp hunder (h.ne_of_findPrefix hfind)
        exact ⟨r, s', congrArg some heq, htree, hmeets⟩
    | false =>
      simp only [Bool.false_eq_true, if_false, Option.isNone_iff_eq_none] at hok ⊢
      have hnew : ∀ e ∈ s.linuxEntries, e.name = lastName name → e.parent ≠ p := by
        intro e he hname hparent
        rw [(h.findEntry_eq_some (length_lastName hshort)).mpr ⟨he, hname, hparent⟩] at hok
        cases hok
      obtain ⟨r, s', heq, htree, hmeets⟩ := h.makeEntry isVmvisor false memory
        hshort hp hunder hnew
      exact ⟨r, s', congrArg some heq, htree, hmeets⟩
  · simp only [hres, Bool.not_eq_true'] at hok ⊢
    refine ⟨none, s, ?_, h, s.same_refl, .inr (.inl hnone)⟩
    rw [hok, if_neg Bool.false_ne_true, State.makeEntry]
    split <;> rfl

/-- **`remove_proc_entry`.** -/
theorem State.Tree.removeProcEntry (h : s.Tree) (hshort : shortNames name = true)
    (hok : s.orderlyRemove name parent = true) :
    (s.removeProcEntry name parent).Tree ∧
      s.Removed name parent (s.removeProcEntry name parent) := by
  simp only [State.orderlyRemove] at hok
  cases hfind : s.findEntryByPath name parent with
  | some e =>
    obtain ⟨he, hleads⟩ := (h.findEntryByPath_eq_some hshort).mp hfind
    simp only [hfind, Bool.and_eq_true, List.isEmpty_iff] at hok
    obtain ⟨hempty, hparent⟩ := hok
    have hwithout : s.removeProcEntry name parent = s.without e := by
      have hdir : parent.getD e.parent = e.parent := by
        cases parent with
        | none => rfl
        | some p => exact of_decide_eq_true hparent
      have hchildren : ((s.setPde e.drvEntry fun pde => { pde with deleted := true }).pde
          e.drvEntry).subdir = [] := by
        simp only [State.setPde, Function.update_self]
        exact hempty
      simp only [State.removeProcEntry, hfind, hdir, hchildren, ne_eq, not_true_eq_false,
        if_false]
      rfl
    rw [hwithout]
    refine ⟨h.without he hempty, fun q hq => ?_, fun hnone => absurd hleads (hnone _)⟩
    have hq' := h.leads_unique hleads hq
    subst hq'
    refine ⟨?_, fun r => ⟨?_, fun hr => ?_⟩⟩
    · rw [s.linuxEntries_without, h.erase_eq he]
    · rw [s.freed_without, List.mem_cons]
    · rw [h.pde_without he, if_neg hr]
      split
      · rename_i heq
        rw [heq]
      · rfl
  | none =>
    simp only [hfind, Option.isNone_iff_eq_none] at hok
    have hsame : s.removeProcEntry name parent = s := by
      simp only [State.removeProcEntry, hfind, State.removeNode, hok]
    rw [hsame]
    exact ⟨h, fun q hleads => absurd hleads (h.findEntryByPath_eq_none hshort hfind q),
      fun _ => s.same_refl⟩

/-- **One call.** -/
theorem State.Tree.exec (h : s.Tree) (isVmvisor : Bool) (call : Call)
    (hlegal : s.legal call = true) (hok : s.orderly call = true) :
    ∃ r s', s.exec isVmvisor call = some (r, s') ∧ s'.Tree ∧ s.Meets isVmvisor call r s' := by
  obtain ⟨hshort, hlive⟩ := Bool.and_eq_true_iff.mp hlegal
  cases call with
  | createProcEntry name isDir parent memory =>
    exact h.createEntry isVmvisor memory hshort hlive hok
  | procMkdir name parent memory =>
    exact h.createEntry isVmvisor memory hshort hlive hok
  | removeProcEntry name parent =>
    obtain ⟨htree, hmeets⟩ := h.removeProcEntry hshort hok
    exact ⟨none, _, rfl, htree, hmeets⟩

end

theorem tree_initial : initial.Tree := by
  have hnone : ∀ e : LinuxProcEntry, e ∉ initial.linuxEntries := fun e he => by cases he
  refine ⟨List.Pairwise.nil, List.nodup_nil, fun e he => absurd he (hnone e),
    fun e he => absurd he (hnone e), fun p => rfl, fun e he => absurd he (hnone e),
    fun e he => absurd he (hnone e), fun e he => absurd he (hnone e), Nat.le_refl _, ?_⟩
  intro q hq
  cases hq

/-- The calls of a sequence. -/
def allowed (s : State) (call : Call) : Bool := s.legal call && s.orderly call

/-- **The proc emulation is a tree keyed by full names**, in every sequence of calls that do not
    run into an entry whose name is the beginning of another's, do not remove a directory that
    is not empty, and create under a parent that there is; and each further such call does what
    its name and parent say. -/
theorem proc_tree (isVmvisor : Bool) {s : State}
    (h : Sequence.Reach (step isVmvisor) (fun s call => allowed s call = true) initial s) :
    s.Tree ∧ (∀ e ∈ s.linuxEntries, (s.pde e.parent).subdir.count e.drvEntry = 1) ∧
      (∀ p, ∀ q ∈ (s.pde p).subdir, q ∉ s.freed) ∧
      ∀ call, allowed s call = true →
        ∃ r s', s.exec isVmvisor call = some (r, s') ∧ s'.Tree ∧
          s.Meets isVmvisor call r s' := by
  have htree : s.Tree := by
    refine h.invariant State.Tree tree_initial fun s call s' hs hallowed hstep => ?_
    obtain ⟨hlegal, hok⟩ := Bool.and_eq_true_iff.mp hallowed
    obtain ⟨r, s'', hexec, htree, -⟩ := hs.exec isVmvisor call hlegal hok
    rw [step, hexec] at hstep
    cases hstep
    exact htree
  refine ⟨htree, fun e he => htree.count_subdir he, fun p q hq => htree.not_freed hq,
    fun call hallowed => ?_⟩
  obtain ⟨hlegal, hok⟩ := Bool.and_eq_true_iff.mp hallowed
  exact htree.exec isVmvisor call hlegal hok

/-- Directories `ab`, twice, and `a`; files `c` by a path and `x` by its parent, and one that there
    is no memory for; and `c` is removed by its path. -/
theorem proc_tree_paths :
    ∃ s : State, s.linuxEntries = [⟨['x'], 5, 8⟩, ⟨['a'], 0, 6⟩, ⟨['a', 'b'], 0, 5⟩] ∧ s.Tree ∧
      ∃ r s', s.exec true (.removeProcEntry ['a', 'b', '/', 'x'] none) = some (r, s') ∧ s'.Tree ∧
        s.Meets true (.removeProcEntry ['a', 'b', '/', 'x'] none) r s' := by
  obtain ⟨s, hreach, hs⟩ := Sequence.exists_reach_of_runIf (step true) allowed
    [.procMkdir ['a', 'b'] none {}, .procMkdir ['a', 'b'] none {}, .procMkdir ['a'] none {},
      .createProcEntry ['a', 'b', '/', 'c'] false none {},
      .createProcEntry ['x'] false (some 5) {},
      .createProcEntry ['a', 'b', '/', 'd'] false none { entry := false },
      .removeProcEntry ['a', 'b', '/', 'c'] none] initial
    (fun s => (s.linuxEntries, allowed s (.removeProcEntry ['a', 'b', '/', 'x'] none)))
    ([⟨['x'], 5, 8⟩, ⟨['a'], 0, 6⟩, ⟨['a', 'b'], 0, 5⟩], true) (by decide)
  obtain ⟨hentries, hallowed⟩ := Prod.mk.inj hs
  obtain ⟨htree, -, -, hcalls⟩ := proc_tree true hreach
  exact ⟨s, hentries, htree, hcalls _ hallowed⟩

/-- `proc_mkdir` returns another directory, whose name is the beginning of the one it is to
    make. -/
theorem other_directory_returned :
    ∃ s q, Sequence.Reach (step true) (fun s call => s.legal call = true) initial s ∧
      s.legal (.procMkdir ['a', 'b', 'c'] none {}) = true ∧
      (s.exec true (.procMkdir ['a', 'b', 'c'] none {})).map Prod.fst = some (some q) ∧
      s.linuxEntries = [⟨['a', 'b'], procRoot, q⟩] := by
  obtain ⟨s, hreach, hs⟩ := Sequence.exists_reach_of_runIf (step true) State.legal
    [.procMkdir ['a', 'b'] none {}] initial
    (fun s => (s.legal (.procMkdir ['a', 'b', 'c'] none {}),
      (s.exec true (.procMkdir ['a', 'b', 'c'] none {})).map Prod.fst, s.linuxEntries))
    (true, some (some 5), [⟨['a', 'b'], procRoot, 5⟩]) (by decide)
  simp only [Prod.mk.injEq] at hs
  exact ⟨s, 5, hreach, hs⟩

/-- `remove_proc_entry` of a name that there is no entry of frees the entry of another, which
    stays in `linuxEntries`. -/
theorem other_entry_freed :
    ∃ s, Sequence.Reach (step true) (fun s call => s.legal call = true) initial s ∧
      s.linuxEntries = [⟨['a', 'b'], procRoot, 5⟩] ∧ s.freed = [5] := by
  obtain ⟨s, hreach, hs⟩ := Sequence.exists_reach_of_runIf (step true) State.legal
    [.createProcEntry ['a', 'b'] false none {}, .removeProcEntry ['a', 'b', 'c'] none] initial
    (fun s => (s.linuxEntries, s.freed)) ([⟨['a', 'b'], procRoot, 5⟩], [5]) (by decide)
  exact ⟨s, hreach, Prod.mk.inj hs⟩

end VmkLinux.Proc
