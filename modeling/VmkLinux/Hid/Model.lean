/-
  VmkLinux/Hid/Model.lean
  =======================
  **Reports of input devices**, `vmklinux26/linux/drivers/hid/hid-core.c`: the bit fields of
  a report, `hid_output_report` and `hid_set_field` on the way out, `hid_input_report` and
  `hid_input_field` on the way in.

  A report is read and written eight bytes at a time, by a processor that stores the lowest
  byte first.  Values of type `__s32` are `BitVec 32`; offsets, sizes and counts are numbers
  without a width.  A shift of an `int` by 32 places or more has no result, and neither has
  a look behind the end of the tables of a field.

  `hid_process_event` is called for every event; which of its listeners are there is left
  out, and so are the debugging output and the listeners of whole reports.
-/
import VmkLinux.ByteBuf
import Mathlib.Algebra.Group.Int.Defs
import Mathlib.Algebra.Group.Nat.Defs

namespace VmkLinux.Hid

open ByteBuf

/-! ### Numbers -/

/-- `x << n` for an `int`. -/
def shl (x : BitVec 32) (n : Nat) : Option (BitVec 32) := if n < 32 then some (x <<< n) else none

/-- `snto32`. -/
def snto32 (value : BitVec 32) (n : Nat) : Option (BitVec 32) :=
  if n = 8 then some ((value.setWidth 8).signExtend 32)
  else if n = 16 then some ((value.setWidth 16).signExtend 32)
  else if n = 32 then some value
  else if n = 0 then none
  else do
    let sign ← shl 1#32 (n - 1)
    if value &&& sign ≠ 0#32 then (shl (-1#32) n).map (value ||| ·) else some value

/-- `s32ton`. -/
def s32ton (value : BitVec 32) (n : Nat) : Option (BitVec 32) :=
  if n = 0 ∨ 32 < n then none
  else
    let a := value.sshiftRight (n - 1)
    if a ≠ 0#32 ∧ a ≠ -1#32 then
      (shl 1#32 (n - 1)).map fun one => if value.slt 0#32 then one else one - 1#32
    else (shl 1#32 n).map fun one => value &&& (one - 1#32)

/-! ### Bit fields -/

/-- The number in the `n` bytes at `i`, the lowest first. -/
def loadLe (data : Buf) (i : Nat) : (n : Nat) → BitVec (8 * n)
  | 0 => 0#0
  | n + 1 => loadLe data (i + 1) n ++ (data i).toBitVec

/-- `le64_to_cpu(get_unaligned(..))`. -/
def getUnaligned (data : Buf) (i : Nat) : BitVec 64 := loadLe data i 8

def putUnaligned (data : Buf) (i : Nat) (x : BitVec 64) : Buf := fun k =>
  if i ≤ k ∧ k < i + 8 then ⟨x.extractLsb' (8 * (k - i)) 8⟩ else data k

def extract (report : Buf) (offset n : Nat) : BitVec 32 :=
  let x := getUnaligned report (offset / 8)
  ((x >>> (offset % 8)) &&& (1#64 <<< n - 1#64)).setWidth 32

def implement (report : Buf) (offset n : Nat) (value : BitVec 32) : Buf :=
  let m := 1#64 <<< n - 1#64
  let value := value &&& m.setWidth 32
  let x := getUnaligned report (offset / 8)
  let x := x &&& ~~~(m <<< (offset % 8))
  putUnaligned report (offset / 8) (x ||| (value.setWidth 64 <<< (offset % 8)))

/-! ### Data -/

/-- `HID_UP_KEYBOARD + 1`, which a keyboard sends when too many keys are down. -/
def errorRollOver : BitVec 32 := 0x00070001#32

/-- `struct hid_field`, with the `hid` of each usage. -/
structure Field where
  usage : List (BitVec 32)
  flags : BitVec 32
  reportOffset : Nat
  reportSize : Nat
  reportCount : Nat
  value : List (BitVec 32)
  logicalMinimum : BitVec 32
  logicalMaximum : BitVec 32
deriving DecidableEq, Repr

/-- `struct hid_report`; `size` is in bits. -/
structure Report where
  id : Nat
  fields : List Field
  size : Nat
deriving DecidableEq, Repr

/-- `logical_minimum < 0`. -/
def Field.signed (f : Field) : Bool := f.logicalMinimum.slt 0#32

/-- `HID_MAIN_ITEM_VARIABLE`. -/
def Field.isVariable (f : Field) : Bool := f.flags &&& 2#32 ≠ 0#32

/-- Where the value number `n` begins. -/
def Field.place (f : Field) (n : Nat) : Nat := f.reportOffset + n * f.reportSize

/-! ### Setting up -/

/-- What the items before it say about a field: of the `global` and `local` state of the
    parser. -/
structure Items where
  usage : List (BitVec 32)
  reportSize : Nat
  reportCount : Nat
  logicalMinimum : BitVec 32
  logicalMaximum : BitVec 32
deriving DecidableEq, Repr

/-- `HID_MAX_FIELDS`. -/
def maxFields : Nat := 64

/-- `hid_register_report`. -/
def hidRegisterReport (id : Nat) : Report := ⟨id, [], 0⟩

/-- The field that `hid_add_field` fills in: excess usages are copies of the last. -/
def newField (items : Items) (flags : BitVec 32) (offset : Nat) : Field where
  usage := (List.range (max items.usage.length items.reportCount)).map fun i =>
    items.usage.getD (min i (items.usage.length - 1)) 0#32
  flags := flags
  reportOffset := offset
  reportSize := items.reportSize
  reportCount := items.reportCount
  value := List.replicate items.reportCount 0#32
  logicalMinimum := items.logicalMinimum
  logicalMaximum := items.logicalMaximum

/-- `hid_add_field`, from where the report is found on: the return value and the report. -/
def hidAddField (r : Report) (alloc : Bool) (items : Items) (flags : BitVec 32) :
    Int × Report :=
  if items.logicalMaximum.slt items.logicalMinimum then (-1, r)
  else
    let r' := { r with size := r.size + items.reportSize * items.reportCount }
    if items.usage = [] then (0, r')
    else if r.fields.length = maxFields then (0, r')
    else if alloc then (0, { r' with fields := r.fields ++ [newField items flags r.size] })
    else (0, r')

/-! ### On the way out -/

/-- The bits of the last byte that the field does not use are cleared. -/
def clearUnused (f : Field) (data : Buf) : Buf :=
  let bitsused := f.reportOffset + f.reportCount * f.reportSize
  fun k =>
    if 0 < f.reportCount ∧ 0 < f.reportSize ∧ bitsused % 8 ≠ 0 ∧ k = (bitsused - 1) / 8 then
      data k &&& ⟨1#8 <<< (bitsused % 8) - 1#8⟩
    else data k

/-- What is written for the value number `n`. -/
def encode (f : Field) (n : Nat) : Option (BitVec 32) := do
  let value ← f.value[n]?
  if f.signed then s32ton value f.reportSize else some value

def outputValue (f : Field) (data : Buf) (n : Nat) : Option Buf :=
  (encode f n).map (implement data (f.place n) f.reportSize)

def hidOutputField (f : Field) (data : Buf) : Option Buf :=
  (List.range f.reportCount).foldlM (outputValue f) (clearUnused f data)

def outputFields (fields : List Field) (data : Buf) : Option Buf :=
  fields.foldlM (fun data f => hidOutputField f data) data

/-- The buffer from `k` on. -/
def behind (data : Buf) (k : Nat) : Buf := fun i => data (k + i)

/-- The number of a report, and `data` behind it. -/
def withId (id : Nat) (data : Buf) : Buf := fun k =>
  if k = 0 then UInt8.ofNat id else data (k - 1)

def hidOutputReport (r : Report) (data : Buf) : Option Buf :=
  if 0 < r.id then
    (outputFields r.fields (behind data 1)).map (withId r.id)
  else outputFields r.fields data

/-- `hid_set_field`: the return value and the field. -/
def hidSetField (f : Field) (offset : Nat) (value : BitVec 32) : Option (Int × Field) :=
  if f.reportCount ≤ offset then some (-1, f)
  else if f.signed then do
    let narrow ← s32ton value f.reportSize
    let back ← snto32 narrow f.reportSize
    some (if value ≠ back then (-1, f) else (0, { f with value := f.value.set offset value }))
  else some (0, { f with value := f.value.set offset value })

/-! ### On the way in -/

/-- `value[n]`, out of the report. -/
def readValue (f : Field) (data : Buf) (n : Nat) : Option (BitVec 32) :=
  let x := extract data (f.place n) f.reportSize
  if f.signed then snto32 x f.reportSize else some x

def Field.inRange (f : Field) (v : BitVec 32) : Bool :=
  f.logicalMinimum.sle v && v.sle f.logicalMaximum

/-- `value - min`. -/
def Field.index (f : Field) (v : BitVec 32) : Nat := (v.toInt - f.logicalMinimum.toInt).toNat

/-- The report says that too many keys are down. -/
def rollsOver (f : Field) (v : BitVec 32) : Option Bool :=
  if !f.isVariable && f.inRange v then f.usage[f.index v]?.map (· == errorRollOver)
  else some false

/-- The first loop of `hid_input_field`: the values, or `none` in a report that is ignored. -/
def readValues (f : Field) (data : Buf) : List Nat → Option (Option (List (BitVec 32)))
  | [] => some (some [])
  | n :: ns => do
      let v ← readValue f data n
      let ignored ← rollsOver f v
      if ignored then some none
      else (readValues f data ns).map fun rest => rest.map (v :: ·)

/-- A call of `hid_process_event`: the usage and the value. -/
structure Event where
  usage : Nat
  value : BitVec 32
deriving DecidableEq, Repr

/-- The event for `v` when it is a key and not one of `others`. -/
def change (f : Field) (v : BitVec 32) (others : List (BitVec 32)) (value : BitVec 32) :
    Option (List Event) :=
  if f.inRange v then
    f.usage[f.index v]?.map fun hid => if hid ≠ 0#32 ∧ v ∉ others then [⟨f.index v, value⟩] else []
  else some []

/-- The second loop, at `n`. -/
def eventsAt (f : Field) (value : List (BitVec 32)) (n : Nat) : Option (List Event) := do
  let v ← value[n]?
  if f.isVariable then f.usage[n]?.map fun _ => [⟨n, v⟩]
  else
    let old ← f.value[n]?
    let up ← change f old value 0#32
    let down ← change f v f.value 1#32
    some (up ++ down)

/-- The second loop of `hid_input_field`. -/
def eventLoop (f : Field) (value : List (BitVec 32)) : List Nat → Option (List Event)
  | [] => some []
  | n :: ns => do
      let events ← eventsAt f value n
      let later ← eventLoop f value ns
      some (events ++ later)

/-- `hid_input_field`, with the result of its `kmalloc`: the field and the events. -/
def hidInputField (f : Field) (alloc : Bool) (data : Buf) : Option (Field × List Event) :=
  if alloc then do
    match ← readValues f data (List.range f.reportCount) with
    | none => some (f, [])
    | some value =>
        let events ← eventLoop f value (List.range f.reportCount)
        some ({ f with value := value }, events)
  else some (f, [])

/-- A usage, with the number of its field and of its report. -/
structure Source where
  report : Nat
  field : Nat
  usage : Nat
deriving DecidableEq, Repr

/-- The fields of a report from number `k` on. -/
def inputFields (id : Nat) (alloc : Nat → Bool) (data : Buf) :
    Nat → List Field → Option (List Field × List (Source × BitVec 32))
  | _, [] => some ([], [])
  | k, f :: fields => do
      let (f', events) ← hidInputField f (alloc k) data
      let (fields', later) ← inputFields id alloc data (k + 1) fields
      some (f' :: fields', events.map (fun e => (⟨id, k, e.usage⟩, e.value)) ++ later)

/-- `struct hid_report_enum`. -/
structure ReportEnum where
  numbered : Bool
  report : Nat → Option Report

/-- `rsize`, worked out in an `unsigned`. -/
def reportBytes (r : Report) : Nat := (r.size + (2 ^ 32 - 1)) % 2 ^ 32 / 8 + 1

/-- The report that the data is for, if there is one, and what is read of it: bytes that have
    not come are zero. -/
def incoming (e : ReportEnum) (data : Buf) (size : Nat) : Option (Nat × Report × Buf) :=
  if size = 0 then none
  else
    let n := if e.numbered then (data 0).toNat else 0
    let data := if e.numbered then behind data 1 else data
    let size := if e.numbered then size - 1 else size
    (e.report n).map fun r =>
      (n, r, fun k => if size ≤ k ∧ k < reportBytes r then 0 else data k)

/-- After a report for `r`, whose number is `n`. -/
def ReportEnum.received (e : ReportEnum) (n : Nat) (r : Report) (fields : List Field) :
    ReportEnum :=
  { e with report := fun i => if i = n then some { r with fields := fields } else e.report i }

/-- `hid_input_report`: the return value, the reports and the events. -/
def hidInputReport (e : ReportEnum) (alloc : Nat → Bool) (data : Buf) (size : Nat) :
    Option (Int × ReportEnum × List (Source × BitVec 32)) :=
  match incoming e data size with
  | none => some (-1, e, [])
  | some (n, r, data) => do
      let (fields, events) ← inputFields n alloc data 0 r.fields
      some (0, e.received n r fields, events)

/-- A call of `hid_input_report`: which allocations succeed, and the data. -/
structure Input where
  alloc : Nat → Bool
  data : Buf
  size : Nat

/-- One report after the other. -/
def hidInputReports : ReportEnum → List Input →
    Option (ReportEnum × List (Source × BitVec 32))
  | e, [] => some (e, [])
  | e, i :: is => do
      let (_, e', events) ← hidInputReport e i.alloc i.data i.size
      let (e'', later) ← hidInputReports e' is
      some (e'', events ++ later)

end VmkLinux.Hid
