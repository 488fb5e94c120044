/-
  VmkLinux/Net/SkbModel.lean
  ==========================
  **Reshaping a socket buffer** (`vmklinux26/linux/net/skbuff.c`): `pskb_expand_head`,
  `__pskb_pull_tail`, `___pskb_trim`, `skb_copy_bits` and `skb_copy`, with what
  `include/linux/skbuff.h`, `vmklinux26/vmware/linux_net.c` and `linux_heap.c` do for them.

  A socket buffer is its linear memory, from `head` to `end`, its page fragments and the socket
  buffers of its `frag_list`.  Pointers into the linear memory are offsets from `head`, and
  lengths, which are unsigned in the source, are natural numbers; where the source computes in
  `int`, the width is written out.  The memory of the pages does not change.

  A function is given what the vmkernel answers to its allocations.  It leaves the socket buffer
  and a log of what it released.
-/
import Mathlib.Algebra.Group.Int.Defs
import Mathlib.Algebra.Group.Nat.Defs
import Mathlib.Algebra.GroupWithZero.Nat
import Mathlib.Data.List.Basic
import VmkLinux.Errno
import VmkLinux.Heap.Kmalloc

namespace VmkLinux.Net.Reshape

/-! ### Data -/

/-- `struct skb_frag_struct`; a `struct page` is a number. -/
structure Frag where
  page : Nat
  pageOffset : BitVec 16
  size : BitVec 16
deriving DecidableEq, Repr

/-- `struct sk_buff` with its `skb_shared_info`, but for `frag_list`; `pkt` is the packet handle
    that it is bound to. -/
structure SkBuff where
  users : Nat := 1
  pkt : Nat
  len : Nat
  dataLen : Nat := 0
  mhead : Bool := false
  dataref : Nat := 1
  fragsref : Nat := 1
  head : List UInt8
  data : Nat := 0
  tail : Nat
  mac : Int := 0
  nh : Int := 0
  h : Int := 0
  frags : List Frag := []
deriving DecidableEq, Repr

/-- A socket buffer with its `frag_list`. -/
inductive Skb where
  | mk (b : SkBuff) (fragList : List Skb)

def Skb.buff : Skb → SkBuff
  | .mk b _ => b

def Skb.fragList : Skb → List Skb
  | .mk _ list => list

/-- Something that was given up: a reference to a packet handle, a page that was put, or a head
    that had been reallocated. -/
inductive Release where
  | pkt (p : Nat)
  | page (p : Nat)
  | head
deriving DecidableEq, Repr

/-- How a function ends that does not return: `BUG`, or memory that is not its own. -/
inductive Stop where
  | bug
  | fault
deriving DecidableEq, Repr

/-- The answers to allocations: memory of the heap; whether the cache has a socket buffer; and a
    packet handle with its memory. -/
structure Kernel where
  heapAlloc : Nat → Option (List UInt8)
  skbAlloc : Bool
  pktAlloc : Nat → Option (Nat × List UInt8)
  length_heapAlloc : ∀ n m, heapAlloc n = some m → m.length = n
  length_pktAlloc : ∀ n p m, pktAlloc n = some (p, m) → n ≤ m.length

/-- `skb_headlen`. -/
def SkBuff.headlen (b : SkBuff) : Nat := b.len - b.dataLen

/-- `(int) n`. -/
def toInt32 (n : Nat) : Int := (BitVec.ofNat 32 n).toInt

/-- `memcpy(buf + off, bytes, ..)`. -/
def write (buf : List UInt8) (off : Nat) (bytes : List UInt8) : List UInt8 :=
  buf.take off ++ bytes ++ buf.drop (off + bytes.length)

/-! ### The heap -/

/-- `kmalloc` of an `int`. -/
def kmalloc (kernel : Kernel) (size : BitVec 32) : Option (List UInt8) :=
  Heap.kmalloc (fun n => kernel.heapAlloc n.toNat) (size.signExtend 64)

/-- `SKB_DATA_ALIGN`. -/
def skbDataAlign (size : BitVec 32) : BitVec 32 := (size + 63) &&& ~~~63

/-! ### Releasing -/

/-- What `skb_release_data` gives up of the socket buffer itself. -/
def releaseOwn (b : SkBuff) : SkBuff × List Release :=
  let head := if b.mhead then [Release.head] else []
  let pkt := if b.fragsref = 1 then [Release.pkt b.pkt] else []
  ({ b with dataref := b.dataref - 1, mhead := false, fragsref := b.fragsref - 1 }, head ++ pkt)

mutual

/-- `__kfree_skb`, with `skb_release_data`. -/
def kfreeSkb : Skb → List Release
  | .mk b list =>
      if b.users = 1 ∧ b.dataref = 1 then (releaseOwn b).2 ++ dropList list else []

/-- `skb_drop_list`. -/
def dropList : List Skb → List Release
  | [] => []
  | s :: list => kfreeSkb s ++ dropList list

end

/-- `skb_release_data`. -/
def skbReleaseData (b : SkBuff) (list : List Skb) : SkBuff × List Skb × List Release :=
  if b.dataref = 1 then ((releaseOwn b).1, [], (releaseOwn b).2 ++ dropList list)
  else ({ b with dataref := b.dataref - 1 }, list, [])

/-- `skb_get`. -/
def skbGet : Skb → Skb
  | .mk b list => .mk { b with users := b.users + 1 } list

/-- `skb_clone_fraglist`. -/
def skbCloneFraglist (list : List Skb) : List Skb := list.map skbGet

/-! ### `pskb_expand_head` -/

/-- `size` of `pskb_expand_head`. -/
def expandSize (b : SkBuff) (nhead ntail : Nat) : BitVec 32 :=
  skbDataAlign (BitVec.ofNat 32 (nhead + b.head.length + ntail))

/-- `pskb_expand_head`; `nhead` and `ntail` are not negative. -/
def pskbExpandHead (kernel : Kernel) (b : SkBuff) (list : List Skb) (nhead ntail : Nat) :
    Except Stop (Int × Skb × List Release) :=
  let size := expandSize b nhead ntail
  if b.users ≠ 1 then .error .bug
  else
    match kmalloc kernel size with
    | none => .ok (-enomem, .mk b list, [])
    | some data =>
        if data.length < nhead + b.tail then .error .fault
        else
          let b := { b with fragsref := b.fragsref + 1 }
          let (b, list, log) := skbReleaseData b (skbCloneFraglist list)
          let b :=
            { b with
              mhead := true
              -- up to `end`, or to the tail where `size` has wrapped and `end` lies before it
              head := (write data nhead (b.head.take b.tail)).take (max size.toNat (nhead + b.tail))
              data := b.data + nhead
              tail := b.tail + nhead
              mac := b.mac + nhead
              h := b.h + nhead
              nh := b.nh + nhead
              dataref := 1 }
          .ok (0, .mk b list, log)

/-! ### `skb_copy_bits` -/

/-- A part of a socket buffer that `skb_copy_bits` walks over: its size, and how bytes are
    copied out of it. -/
structure Piece where
  size : Nat
  read : Int → Int → Option (List UInt8)

/-- The locals `start`, `offset` and `len` of `skb_copy_bits`, and what it has copied. -/
structure Cursor where
  start : Int
  offset : Int
  n : Int
  copied : List UInt8

/-- `memcpy` from the linear part, `rel` bytes behind `data`. -/
def readLinear (b : SkBuff) (rel n : Int) : Option (List UInt8) :=
  if 0 ≤ (b.data : Int) + rel ∧ 0 ≤ n then
    some ((b.head.drop ((b.data : Int) + rel).toNat).take n.toNat)
  else none

/-- The memory of the pages: what is `i` bytes behind the start of a page. -/
abbrev Pages := Nat → Nat → UInt8

/-- `memcpy` from a page fragment. -/
def readFrag (mem : Pages) (f : Frag) (rel n : Int) : Option (List UInt8) :=
  if 0 ≤ rel ∧ 0 ≤ n then
    some ((List.range n.toNat).map fun i => mem f.page (f.pageOffset.toNat + rel.toNat + i))
  else none

/-- The three loops of `skb_copy_bits`: `none` is `-EFAULT`, or a `memcpy` that cannot be. -/
def walk : List Piece → Cursor → Option (List UInt8)
  | [], c => if c.n = 0 then some c.copied else none
  | p :: pieces, c =>
      let stop := c.start + p.size
      let copy := stop - c.offset
      if 0 < copy then
        let copy := min copy c.n
        match p.read (c.offset - c.start) copy with
        | none => none
        | some bytes =>
            if c.n - copy = 0 then some (c.copied ++ bytes)
            else walk pieces ⟨stop, c.offset + copy, c.n - copy, c.copied ++ bytes⟩
      else walk pieces { c with start := stop }

def linearPiece (b : SkBuff) : Piece := ⟨b.headlen, readLinear b⟩

def fragPiece (mem : Pages) (f : Frag) : Piece := ⟨f.size.toNat, readFrag mem f⟩

mutual

/-- `skb_copy_bits`. -/
def skbCopyBits (mem : Pages) : Skb → Int → Int → Option (List UInt8)
  | .mk b list, offset, n =>
      if toInt32 b.len - n < offset then none
      else
        walk (linearPiece b :: (b.frags.map (fragPiece mem) ++ listPieces mem list))
          ⟨0, offset, n, []⟩

def listPieces (mem : Pages) : List Skb → List Piece
  | [] => []
  | s :: list => ⟨s.buff.len, skbCopyBits mem s⟩ :: listPieces mem list

end

/-! ### `__pskb_pull_tail` -/

/-- Whether a pull succeeded, and what it left. -/
abbrev Pull := Except Stop (Bool × Skb × List Release)

/-- The last loop of `__pskb_pull_tail`. -/
def pullFrags : List Frag → Nat → List Frag × List Release
  | [], _ => ([], [])
  | f :: frags, eat =>
      if f.size.toNat ≤ eat then
        let (rest, log) := pullFrags frags (eat - f.size.toNat)
        (rest, .page f.page :: log)
      else
        let f := if eat = 0 then f
          else { f with
            pageOffset := f.pageOffset + BitVec.ofNat 16 eat
            size := f.size - BitVec.ofNat 16 eat }
        let (rest, log) := pullFrags frags 0
        (f :: rest, log)

/-- The loop that estimates: `none` is `goto pull_pages`, and otherwise what is left of `eat`. -/
def estimate : List Frag → Nat → Option Nat
  | [], eat => some eat
  | f :: frags, eat => if eat ≤ f.size.toNat then none else estimate frags (eat - f.size.toNat)

/-- `pull_pages`. -/
def pullPages (b : SkBuff) (list : List Skb) (delta : Nat) : Skb × List Release :=
  let (frags, log) := pullFrags b.frags delta
  (.mk { b with frags := frags, tail := b.tail + delta, dataLen := b.dataLen - delta } list, log)

/-- `skb->len -= len; skb->data += len`. -/
def advance (len : Nat) : Skb → Skb
  | .mk b list => .mk { b with len := b.len - len, data := b.data + len } list

/-- `pskb_pull`, given what `__pskb_pull_tail` does with the socket buffer. -/
def pskbPull (s : Skb) (pullTail : Nat → Pull) (len : Nat) : Pull :=
  if s.buff.len < len then .ok (false, s, [])
  else if s.buff.headlen < len then
    match pullTail (len - s.buff.headlen) with
    | .error e => .error e
    | .ok (false, s, log) => .ok (false, s, log)
    | .ok (true, s, log) => .ok (true, advance len s, log)
  else .ok (true, advance len s, [])

/-- What the loop over `frag_list` leaves: whether it got to its end, the socket buffers before
    `insp`, those from `insp` on, and what `pskb_pull` released. -/
structure Eaten where
  ok : Bool
  eaten : List Skb
  rest : List Skb
  log : List Release

/-- The loop over `frag_list`. -/
def eatList : List (Skb × (Nat → Pull)) → Nat → Except Stop Eaten
  | [], _ => .error .bug
  | (s, pullTail) :: list, eat =>
      if s.buff.len ≤ eat then
        if eat - s.buff.len = 0 then .ok ⟨true, [s], list.map Prod.fst, []⟩
        else
          match eatList list (eat - s.buff.len) with
          | .error e => .error e
          | .ok e => .ok { e with eaten := s :: e.eaten }
      else if s.buff.users ≠ 1 then .error .bug
      else
        match pskbPull s pullTail eat with
        | .error e => .error e
        | .ok (ok, s, log) => .ok ⟨ok, [], s :: list.map Prod.fst, log⟩

/-- The first part of `__pskb_pull_tail`; no socket buffer is cloned. -/
def makeRoom (kernel : Kernel) (b : SkBuff) (list : List Skb) (delta : Nat) :
    Except Stop (Int × Skb × List Release) :=
  if b.head.length < b.tail + delta then
    pskbExpandHead kernel b list 0 (b.tail + delta - b.head.length + 128)
  else .ok (0, .mk b list, [])

/-- The rest of it, from the update of `frag_list` on. -/
def pullFragList (b : SkBuff) (list : List (Skb × (Nat → Pull))) (delta : Nat) : Pull :=
  match if list.isEmpty then none else estimate b.frags delta with
  | none =>
      let (s, log) := pullPages b (list.map Prod.fst) delta
      .ok (true, s, log)
  | some 0 =>
      let (s, log) := pullPages b (list.map Prod.fst) delta
      .ok (true, s, log)
  | some eat =>
      match eatList list eat with
      | .error e => .error e
      | .ok ⟨false, eaten, rest, log⟩ => .ok (false, .mk b (eaten ++ rest), log)
      | .ok ⟨true, eaten, rest, log⟩ =>
          let (s, pages) := pullPages b rest delta
          .ok (true, s, log ++ dropList eaten ++ pages)

/-- `__pskb_pull_tail`, given what it does with the socket buffers of `frag_list`. -/
def pullBody (kernel : Kernel) (mem : Pages) (b : SkBuff) (list : List (Skb × (Nat → Pull)))
    (delta : Nat) : Pull :=
  match makeRoom kernel b (list.map Prod.fst) delta with
  | .error e => .error e
  | .ok (err, .mk b list', log) =>
      if err ≠ 0 then .ok (false, .mk b list', log)
      else
        match skbCopyBits mem (.mk b list') b.headlen delta with
        | none => .error .bug
        | some bytes =>
            if b.head.length < b.tail + bytes.length then .error .fault
            else
              let b := { b with head := write b.head b.tail bytes }
              match pullFragList b (if list'.isEmpty then [] else list) delta with
              | .error e => .error e
              | .ok (ok, s, log') => .ok (ok, s, log ++ log')

mutual

/-- `__pskb_pull_tail`. -/
def pskbPullTail (kernel : Kernel) (mem : Pages) : Skb → Nat → Pull
  | .mk b list, delta => pullBody kernel mem b (withPull kernel mem list) delta

/-- Socket buffers, each with what `__pskb_pull_tail` does with it. -/
def withPull (kernel : Kernel) (mem : Pages) : List Skb → List (Skb × (Nat → Pull))
  | [] => []
  | s :: list => (s, pskbPullTail kernel mem s) :: withPull kernel mem list

end

/-! ### `___pskb_trim` -/

/-- The loop over the fragments: those that stay and those that are put, or that all of them
    end before `len`. -/
def trimFrags : List Frag → Nat → Nat → Option (List Frag × List Frag)
  | [], _, _ => none
  | f :: frags, offset, len =>
      if offset + f.size.toNat < len then
        (trimFrags frags (offset + f.size.toNat) len).map fun r => (f :: r.1, r.2)
      else some ([{ f with size := BitVec.ofNat 16 (len - offset) }], frags)

/-- `put_page` of each. -/
def putPages (frags : List Frag) : List Release := frags.map fun f => .page f.page

/-- `done`. -/
def trimDone (b : SkBuff) (len : Nat) : SkBuff :=
  if b.headlen < len then { b with dataLen := b.dataLen - (b.len - len), len := len }
  else { b with len := len, dataLen := 0, tail := b.data + len }

/-- `__skb_trim`. -/
def skbTrim (b : SkBuff) (len : Nat) : SkBuff :=
  if b.dataLen ≠ 0 then b else { b with len := len, tail := b.data + len }

def fragsLen (frags : List Frag) : Nat := (frags.map fun f => f.size.toNat).sum

mutual

/-- `___pskb_trim`, which returns 0; no socket buffer is cloned. -/
def pskbTrim : Skb → Nat → Except Stop (Skb × List Release)
  | .mk b list, len =>
      if len ≤ b.headlen then
        .ok (.mk (trimDone { b with frags := [] } len) [], putPages b.frags ++ dropList list)
      else
        match trimFrags b.frags b.headlen len with
        | some (kept, put) =>
            .ok (.mk (trimDone { b with frags := kept } len) [], putPages put ++ dropList list)
        | none =>
            match trimList list (b.headlen + fragsLen b.frags) len with
            | .error e => .error e
            | .ok (list, log) => .ok (.mk (trimDone b len) list, log)

/-- The loop over `frag_list`, with `pskb_trim`. -/
def trimList : List Skb → Nat → Nat → Except Stop (List Skb × List Release)
  | [], _, _ => .ok ([], [])
  | .mk b l :: list, offset, len =>
      if b.users ≠ 1 then .error .bug
      else if offset + b.len < len then
        match trimList list (offset + b.len) len with
        | .error e => .error e
        | .ok (list, log) => .ok (.mk b l :: list, log)
      else if len < offset + b.len then
        if b.dataLen ≠ 0 then
          match pskbTrim (.mk b l) (len - offset) with
          | .error e => .error e
          | .ok (s, log) => .ok ([s], log ++ dropList list)
        else .ok ([.mk (skbTrim b (len - offset)) l], dropList list)
      else .ok ([.mk b l], dropList list)

end

/-! ### `skb_copy` -/

/-- `vmklnx_net_alloc_skb`. -/
def vmklnxNetAllocSkb (kernel : Kernel) (size : Nat) : Option SkBuff :=
  if kernel.skbAlloc then
    match kernel.pktAlloc size with
    | none => none
    | some (pkt, m) => some { pkt := pkt, len := 0, head := m.take size, tail := 0 }
  else none

/-- `skb_copy`, with `skb_reserve`, `skb_put` and `copy_skb_header`; `none` is no memory. -/
def skbCopy (kernel : Kernel) (mem : Pages) (s : Skb) : Except Stop (Option Skb) :=
  let b := s.buff
  match vmklnxNetAllocSkb kernel ((b.head.length + b.dataLen) % 2 ^ 32) with
  | none => .ok none
  | some n =>
      let n := { n with data := b.data, tail := b.data + b.len, len := b.len }
      -- skb_over_panic
      if n.head.length < n.tail then .error .bug
      else
        match skbCopyBits mem s (-b.data) (toInt32 (b.data + b.len)) with
        | none => .error .bug
        | some bytes =>
            .ok (some (.mk
              { n with
                head := write n.head 0 bytes
                mac := b.mac
                nh := b.nh
                h := b.h } []))

end VmkLinux.Net.Reshape
