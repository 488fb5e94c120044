/-
  VmkLinux/Seq/Model.lean
  =======================
  **Files made of records**, `vmklinux26/linux/fs/seq_file.c`: the functions that print
  into the buffer of a `struct seq_file`, and `seq_read` and `seq_lseek` over it.

  The methods of `struct seq_operations` are given by the records that they walk over:
  `start` finds the record at a position and `next` the one after it, both `NULL` behind
  the last and `ERR_PTR` where the sequence says so; `show` prints the record and returns
  a number.  The records stay the same while the file is open.

  `buf` holds the bytes that were stored from the start of the buffer on; what lies
  behind them has not been written, and a copy that takes some of it has no result.  An
  allocation may fail.  Positions and sizes are numbers without a width.  `f_version` is
  left out, as only the methods look at it, and so is the lock of the file.
-/
import Mathlib.Algebra.Group.Int.Defs
import Mathlib.Algebra.Group.Nat.Defs
import Mathlib.Data.List.Basic
import VmkLinux.Errno

namespace VmkLinux.Seq

/-! ### Data -/

/-- `PAGE_SIZE`. -/
def pageSize : Nat := 4096

/-- What a `show` method prints with. -/
inductive Print where
  | puts (s : List UInt8)
  /-- `seq_printf`, with the text that the format comes to. -/
  | printf (s : List UInt8)
  | putc (c : UInt8)
  | escape (s esc : List UInt8)
deriving DecidableEq, Repr

/-- What `start` and `next` find at a position: an error, or a record, which `show` prints
    before it returns `ret`. -/
inductive Item where
  | err (e : Int)
  | record (prints : List Print) (ret : Int)
deriving DecidableEq, Repr

/-- `struct seq_file`; `fromPos` is `from`. -/
structure SeqFile where
  buf : Option (List UInt8)
  size : Nat
  fromPos : Nat
  count : Nat
  index : Nat
deriving DecidableEq, Repr

/-- `struct file`, with its `private_data`. -/
structure File where
  m : SeqFile
  fPos : Nat
deriving DecidableEq, Repr

/-- `seq_open`. -/
def seqOpen : File := ⟨⟨none, 0, 0, 0, 0⟩, 0⟩

/-- Which calls of `kmalloc` succeed: the one for the first page, and the ones for a buffer
    of a new size. -/
structure Alloc where
  page : Bool
  grow : Nat → Bool

/-! ### Printing -/

/-- `out` is stored behind the `count` bytes that are there. -/
def SeqFile.wrote (m : SeqFile) (out : List UInt8) : SeqFile :=
  { m with buf := m.buf.map fun data => data.take m.count ++ out, count := m.count + out.length }

/-- `m->count = m->size`. -/
def SeqFile.overflow (m : SeqFile) : SeqFile := { m with count := m.size }

/-- The octal escape of a character. -/
def octal (c : UInt8) : List UInt8 :=
  let zero : UInt8 := 0x30
  [0x5c, zero + ((c &&& 0o300) >>> (6 : UInt8)), zero + ((c &&& 0o70) >>> (3 : UInt8)),
    zero + (c &&& 0o7)]

/-- The loop of `seq_escape`, with the bytes that it has stored. -/
def escapeLoop (m : SeqFile) (esc : List UInt8) : List UInt8 → List UInt8 → SeqFile
  | [], out => m.wrote out
  | c :: s, out =>
      if m.count + out.length < m.size then
        if c ∉ esc then escapeLoop m esc s (out ++ [c])
        else if m.count + out.length + 3 < m.size then escapeLoop m esc s (out ++ octal c)
        else m.overflow
      else m.wrote out

def seqEscape (m : SeqFile) (s esc : List UInt8) : SeqFile := escapeLoop m esc s []

def seqPrintf (m : SeqFile) (s : List UInt8) : SeqFile :=
  if m.count < m.size ∧ m.count + s.length < m.size then m.wrote s else m.overflow

def seqPutc (m : SeqFile) (c : UInt8) : SeqFile :=
  if m.count < m.size then m.wrote [c] else m

def seqPuts (m : SeqFile) (s : List UInt8) : SeqFile :=
  if m.count + s.length < m.size then m.wrote s else m.overflow

def Print.run (m : SeqFile) : Print → SeqFile
  | .puts s => seqPuts m s
  | .printf s => seqPrintf m s
  | .putc c => seqPutc m c
  | .escape s esc => seqEscape m s esc

/-- `m->op->show`, which does not look at what the printing functions return. -/
def opShow (m : SeqFile) (prints : List Print) : SeqFile := prints.foldl Print.run m

/-- The text of a call. -/
def Print.text : Print → List UInt8
  | .puts s => s
  | .printf s => s
  | .putc c => [c]
  | .escape s esc => s.flatMap fun c => if c ∉ esc then [c] else octal c

/-- The text of a record. -/
def text (prints : List Print) : List UInt8 := prints.flatMap Print.text

/-! ### Reading -/

/-- `memcpy` out of the buffer. -/
def copyOut (m : SeqFile) (off n : Nat) : Option (List UInt8) :=
  match m.buf with
  | some data => if off + n ≤ data.length then some ((data.drop off).take n) else none
  | none => none

/-- The end of `seq_read`, from `Done`: the bytes read or the error, and the file. -/
def done (f : File) (m : SeqFile) (copied : List UInt8) (err : Int) :
    Except Int (List UInt8) × File :=
  if copied = [] then (if err = 0 then .ok [] else .error err, { f with m := m })
  else (.ok copied, ⟨m, f.fPos + copied.length⟩)

/-- How the loop for the first record ends. -/
inductive First where
  /-- At `Fill`. -/
  | shown (m : SeqFile)
  /-- At `Done`, with this `err`. -/
  | stopped (m : SeqFile) (err : Int)
deriving DecidableEq, Repr

/-- The loop for the first record: the buffer is doubled until the record fits.  The loop
    has no bound in the source; the first argument is one. -/
def firstLoop (a : Alloc) (prints : List Print) (ret : Int) : Nat → SeqFile → Option First
  | 0, _ => none
  | fuel + 1, m =>
      let m' := opShow m prints
      if ret ≠ 0 then some (.stopped { m' with count := 0 } ret)
      else if m'.count < m'.size then some (.shown m')
      else if a.grow (m'.size * 2) then
        firstLoop a prints ret fuel { m' with buf := some [], size := m'.size * 2, count := 0 }
      -- `count` stays as it is
      else some (.stopped { m' with buf := none, size := m'.size * 2 } (-enomem))

/-- The loop at `Fill` over the records to come: the file, `pos` and `err`. -/
def fillLoop (size : Nat) : List Item → SeqFile → Nat → SeqFile × Nat × Int
  | [], m, pos => (m, pos, 0)
  | item :: rest, m, pos =>
      if m.count < size then
        match item with
        | .err e => (m, pos, e)
        | .record prints ret =>
            let m' := opShow m prints
            if ret ≠ 0 ∨ m'.count = m'.size then ({ m' with count := m.count }, pos, ret)
            else fillLoop size rest m' (pos + 1)
      else (m, pos, 0)

/-- `seq_read`, from the end of the loop at `Fill` on. -/
def copyRecords (f : File) (m : SeqFile) (pos : Nat) (err : Int) (size : Nat)
    (copied : List UInt8) : Option (Except Int (List UInt8) × File) :=
  let n := min m.count size
  match copyOut m 0 n with
  | none => none
  | some data =>
      let m := { m with count := m.count - n }
      let m := if m.count ≠ 0 then { m with fromPos := n, index := pos }
        else { m with index := pos + 1 }
      some (done f m (copied ++ data) err)

/-- `seq_read`, from the loop for the first record on. -/
def readRecords (items : List Item) (a : Alloc) (f : File) (m : SeqFile) (size : Nat)
    (copied : List UInt8) : Option (Except Int (List UInt8) × File) :=
  match items[m.index]? with
  | none => some (done f { m with count := 0 } copied 0)
  | some (.err e) => some (done f { m with count := 0 } copied e)
  | some (.record prints ret) =>
      match firstLoop a prints ret ((text prints).length + 2) m with
      | none => none
      | some (.stopped m err) => some (done f m copied err)
      | some (.shown m) =>
          let (m, pos, err) := fillLoop size (items.drop (m.index + 1)) m m.index
          copyRecords f m pos err size copied

/-- The buffer of the file; `buf` stays `NULL` if there is none to be had. -/
def grabBuf (a : Alloc) (m : SeqFile) : SeqFile :=
  if m.buf.isSome then m
  else { m with size := pageSize, buf := if a.page then some [] else none }

/-- The buffer when `n` bytes of it have been flushed. -/
def flush (m : SeqFile) (n : Nat) : SeqFile :=
  let m := { m with count := m.count - n, fromPos := m.fromPos + n }
  if m.count = 0 then { m with index := m.index + 1 } else m

def seqRead (items : List Item) (a : Alloc) (f : File) (size : Nat) :
    Option (Except Int (List UInt8) × File) :=
  let m := grabBuf a f.m
  if m.buf.isNone then some (done f m [] (-enomem))
  else if m.count = 0 then readRecords items a f m size []
  else
    let n := min m.count size
    match copyOut m m.fromPos n with
    | none => none
    | some data =>
        let m := flush m n
        if size - n = 0 then some (done f m data 0)
        else readRecords items a f m (size - n) data

/-! ### Seeking -/

/-- The loop of `traverse` at position `pos`: the error, or `none` where a record did not
    fit. -/
def traverseLoop (offset : Nat) : List Item → Nat → SeqFile → SeqFile × Option Int
  | [], _, m => (m, some 0)
  | .err e :: _, _, m => (m, some e)
  | .record prints ret :: rest, pos, m =>
      let m' := opShow m prints
      if ret ≠ 0 then (m', some ret)
      else if m'.count = m'.size then (m', none)
      else if offset < pos + m'.count then
        ({ m' with fromPos := offset - pos, count := m'.count - (offset - pos) }, some 0)
      else if pos + m'.count = offset then
        ({ m' with count := 0, index := m'.index + 1 }, some 0)
      else traverseLoop offset rest (pos + m'.count) { m' with count := 0, index := m'.index + 1 }

def traverse (items : List Item) (a : Alloc) (m : SeqFile) (offset : Nat) : SeqFile × Int :=
  let m := { m with index := 0, count := 0, fromPos := 0 }
  if offset = 0 then (m, 0)
  else
    let m := grabBuf a m
    if m.buf.isNone then (m, -enomem)
    else
      match traverseLoop offset items 0 m with
      | (m, some e) => (m, e)
      | (m, none) =>
          if a.grow (m.size * 2) then ({ m with buf := some [], size := m.size * 2 }, -eagain)
          else ({ m with buf := none, size := m.size * 2 }, -enomem)

/-- The loop of `seq_lseek` around `traverse`, with a bound. -/
def seekLoop (items : List Item) (a : Alloc) (offset : Nat) : Nat → SeqFile → Option (SeqFile × Int)
  | 0, _ => none
  | fuel + 1, m =>
      let (m, retval) := traverse items a m offset
      if retval = -eagain then seekLoop items a offset fuel m else some (m, retval)

/-- `seq_lseek`, at the case for an absolute offset. -/
def seekTo (items : List Item) (a : Alloc) (fuel : Nat) (f : File) (offset : Int) :
    Option (Except Int Nat × File) :=
  if offset < 0 then some (.error (-einval), f)
  else if offset.toNat = f.fPos then some (.ok offset.toNat, f)
  else
    match seekLoop items a offset.toNat fuel f.m with
    | none => none
    | some (m, retval) =>
        if retval ≠ 0 then some (.error retval, ⟨{ m with index := 0, count := 0 }, 0⟩)
        else some (.ok offset.toNat, ⟨m, offset.toNat⟩)

def seqLseek (items : List Item) (a : Alloc) (fuel : Nat) (f : File) (offset origin : Int) :
    Option (Except Int Nat × File) :=
  if origin = 1 then seekTo items a fuel f (offset + f.fPos)
  else if origin = 0 then seekTo items a fuel f offset
  else some (.error (-einval), f)

end VmkLinux.Seq
