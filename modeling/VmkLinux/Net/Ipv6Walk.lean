/-
  VmkLinux/Net/Ipv6Walk.lean
  ==========================
  **The walk over the headers of an IPv6 packet**: `ipv6_set_hraw` of
  `vmklinux26/vmware/linux_net.c`.

  The packet is memory from `skb->head` on, and a pointer into it an offset.  Beyond `skb->end`
  there is memory too, which is not part of the packet; a read there gives what happens to stand
  there, and is a read of the list all the same.
-/
import VmkLinux.ByteBuf

namespace VmkLinux.Net.MapPkt

open VmkLinux.ByteBuf

/-! ### The function -/

def IPPROTO_HOPOPTS : Nat := 0
def IPPROTO_TCP : Nat := 6
def IPPROTO_UDP : Nat := 17
def IPPROTO_ROUTING : Nat := 43
def IPPROTO_AH : Nat := 51
def IPPROTO_ICMPV6 : Nat := 58
def IPPROTO_DSTOPTS : Nat := 60

/-- Where `nexthdr` is in a `struct ipv6hdr`. -/
def nexthdrOffset : Nat := 6

/-- `sizeof (struct ipv6hdr)`. -/
def ipv6hdrLen : Nat := 40

/-- How far the header at `nextHdrPtr` reaches, when it is one to search behind. -/
def extLen (b : Buf) (nextHdr nextHdrPtr : Nat) : Option Nat :=
  if nextHdr = IPPROTO_ROUTING ∨ nextHdr = IPPROTO_HOPOPTS ∨ nextHdr = IPPROTO_DSTOPTS then
    some (b.u8 (nextHdrPtr + 1) * 8 + 8)
  else if nextHdr = IPPROTO_AH then some (b.u8 (nextHdrPtr + 1) * 4 + 8)
  else none

theorem extLen_pos {b : Buf} {nextHdr nextHdrPtr len : Nat}
    (h : extLen b nextHdr nextHdrPtr = some len) : 0 < len := by
  unfold extLen at h
  split at h
  · cases h
    exact Nat.succ_pos _
  · split at h
    · cases h
      exact Nat.succ_pos _
    · cases h

/-- What `ipv6_set_hraw` leaves in `skb->h.raw` and `*protocol`, and the offsets it read. -/
structure Hraw where
  raw : Option Nat
  protocol : Nat
  reads : List Nat
deriving DecidableEq, Repr

/-- The loop, which gets closer to the end in every round. -/
def walk (b : Buf) (skbEnd protocol nextHdr nextHdrPtr : Nat) : Hraw :=
  match _hlen : extLen b nextHdr nextHdrPtr with
  | none => { raw := some nextHdrPtr, protocol := nextHdr, reads := [] }
  | some len =>
      if _hnext : nextHdrPtr + len < skbEnd then
        let rest := walk b skbEnd protocol (b.u8 nextHdrPtr) (nextHdrPtr + len)
        { rest with reads := nextHdrPtr :: (nextHdrPtr + 1) :: rest.reads }
      else { raw := none, protocol := protocol, reads := [nextHdrPtr, nextHdrPtr + 1] }
termination_by skbEnd - nextHdrPtr
decreasing_by
  have := extLen_pos _hlen
  omega

/-- `ipv6_set_hraw` with the network header at `nh`; `protocol` is `*protocol` before, and
    `skb->h.raw` is null. -/
def ipv6SetHraw (b : Buf) (skbEnd nh protocol : Nat) : Hraw :=
  let nextHdr := b.u8 (nh + nexthdrOffset)
  let nextHdrPtr := nh + ipv6hdrLen
  if nextHdrPtr > skbEnd then { raw := none, protocol := protocol, reads := [nh + nexthdrOffset] }
  else if nextHdr = IPPROTO_TCP ∨ nextHdr = IPPROTO_UDP ∨ nextHdr = IPPROTO_ICMPV6 then
    { raw := some nextHdrPtr, protocol := nextHdr, reads := [nh + nexthdrOffset] }
  else
    let found := walk b skbEnd protocol nextHdr nextHdrPtr
    { found with reads := (nh + nexthdrOffset) :: found.reads }

/-! ### What the walk is for -/

/-- The headers that come, each after the one before, from the header of type `t` at `p` on. -/
inductive Chain (b : Buf) (t p : Nat) : Nat → Nat → Prop
  | head : Chain b t p t p
  | next {t' p' len : Nat} :
      Chain b t p t' p' → extLen b t' p' = some len → Chain b t p (b.u8 p') (p' + len)

/-- Every read is of the packet, and what is set is the first header that is not searched
    behind, with its type, inside of the packet. -/
structure Hraw.Right (r : Hraw) (b : Buf) (skbEnd t p : Nat) : Prop where
  reads : ∀ off ∈ r.reads, off < skbEnd
  found : ∀ raw, r.raw = some raw →
    Chain b t p r.protocol raw ∧ extLen b r.protocol raw = none ∧ raw < skbEnd

/-- No header that is searched behind starts at the last byte of the packet. -/
def NoStraddle (b : Buf) (skbEnd t p : Nat) : Prop :=
  ∀ t' p', Chain b t p t' p' → extLen b t' p' ≠ none → p' + 1 ≠ skbEnd

section Chains

variable {b : Buf} {skbEnd t p len : Nat}

theorem Chain.of_next (hlen : extLen b t p = some len) {t' p' : Nat}
    (h : Chain b (b.u8 p) (p + len) t' p') : Chain b t p t' p' := by
  induction h with
  | head => exact .next .head hlen
  | next _ hlen' ih => exact .next ih hlen'

/-- A chain is its first header, or goes on behind it. -/
theorem Chain.cases_head {t' p' : Nat} (h : Chain b t p t' p') :
    (t' = t ∧ p' = p) ∨
      ∃ len, extLen b t p = some len ∧ Chain b (b.u8 p) (p + len) t' p' := by
  induction h with
  | head => exact .inl ⟨rfl, rfl⟩
  | next _ hlen ih =>
    rcases ih with ⟨rfl, rfl⟩ | ⟨len, hfirst, hrest⟩
    · exact .inr ⟨_, hlen, .head⟩
    · exact .inr ⟨len, hfirst, .next hrest hlen⟩

/-- The chain only goes forward. -/
theorem Chain.le {t' p' : Nat} (h : Chain b t p t' p') : p ≤ p' := by
  induction h with
  | head => exact Nat.le_refl p
  | next _ _ ih => omega

theorem noStraddle_next (hlen : extLen b t p = some len) :
    NoStraddle b skbEnd t p ↔
      p + 1 ≠ skbEnd ∧ NoStraddle b skbEnd (b.u8 p) (p + len) := by
  constructor
  · intro h
    refine ⟨h t p .head ?_, fun t' p' hchain => h t' p' (.of_next hlen hchain)⟩
    rw [hlen]
    exact Option.some_ne_none len
  · rintro ⟨hfirst, hrest⟩ t' p' hchain hext
    rcases hchain.cases_head with ⟨-, rfl⟩ | ⟨len', hlen', hchain'⟩
    · exact hfirst
    · rw [hlen] at hlen'
      cases hlen'
      exact hrest t' p' hchain' hext

end Chains

/-! ### The loop -/

section Walk

variable {b : Buf} {skbEnd protocol t p : Nat}

theorem walk_found (h : extLen b t p = none) :
    walk b skbEnd protocol t p = { raw := some p, protocol := t, reads := [] } := by
  rw [walk]
  split
  · rfl
  · rename_i len hlen
    rw [h] at hlen
    cases hlen

theorem walk_ext {len : Nat} (h : extLen b t p = some len) :
    walk b skbEnd protocol t p =
      if p + len < skbEnd then
        { walk b skbEnd protocol (b.u8 p) (p + len) with
          reads := p :: (p + 1) :: (walk b skbEnd protocol (b.u8 p) (p + len)).reads }
      else { raw := none, protocol := protocol, reads := [p, p + 1] } := by
  rw [walk]
  split
  · rename_i hnone
    rw [h] at hnone
    cases hnone
  · rename_i len' hlen
    rw [h] at hlen
    cases hlen
    split <;> rfl

/-- What a walk that starts inside of the packet finds. -/
theorem walk_raw (n : Nat) : ∀ t p : Nat, skbEnd - p ≤ n → p < skbEnd →
    ∀ raw, (walk b skbEnd protocol t p).raw = some raw →
      Chain b t p (walk b skbEnd protocol t p).protocol raw ∧
        extLen b (walk b skbEnd protocol t p).protocol raw = none ∧ raw < skbEnd := by
  induction n with
  | zero =>
    intro t p hn hp
    exact absurd hn (by omega)
  | succ n ih =>
    intro t p hn hp raw hraw
    cases hlen : extLen b t p with
    | none =>
      rw [walk_found hlen] at hraw ⊢
      cases hraw
      exact ⟨.head, hlen, hp⟩
    | some len =>
      have hpos := extLen_pos hlen
      rw [walk_ext hlen] at hraw ⊢
      split at hraw
      · rename_i hnext
        rw [if_pos hnext]
        obtain ⟨hchain, hext, hin⟩ := ih (b.u8 p) (p + len) (by omega) hnext raw hraw
        exact ⟨.of_next hlen hchain, hext, hin⟩
      · cases hraw

/-- A walk finds nothing before its start. -/
theorem le_walk_raw {raw : Nat} (h : (walk b skbEnd protocol t p).raw = some raw) : p ≤ raw := by
  by_cases hp : p < skbEnd
  · exact (walk_raw _ t p (Nat.le_refl _) hp raw h).1.le
  · cases hlen : extLen b t p with
    | none =>
      rw [walk_found hlen] at h
      cases h
      exact Nat.le_refl _
    | some len =>
      rw [walk_ext hlen, if_neg (by omega)] at h
      cases h

/-- It reads in the packet exactly when no header straddles the end. -/
theorem walk_reads (n : Nat) : ∀ t p : Nat, skbEnd - p ≤ n → p < skbEnd →
    ((∀ off ∈ (walk b skbEnd protocol t p).reads, off < skbEnd) ↔ NoStraddle b skbEnd t p) := by
  induction n with
  | zero =>
    intro t p hn hp
    exact absurd hn (by omega)
  | succ n ih =>
    intro t p hn hp
    cases hlen : extLen b t p with
    | none =>
      rw [walk_found hlen]
      refine ⟨fun _ t' p' hchain hext => ?_, fun _ off hoff => by cases hoff⟩
      rcases hchain.cases_head with ⟨rfl, rfl⟩ | ⟨len, hlen', -⟩
      · exact absurd hlen hext
      · rw [hlen] at hlen'
        cases hlen'
    | some len =>
      have hpos := extLen_pos hlen
      rw [walk_ext hlen, noStraddle_next hlen]
      split
      · rename_i hnext
        rw [← ih (b.u8 p) (p + len) (by omega) hnext]
        simp only [List.forall_mem_cons]
        constructor
        · rintro ⟨-, hlast, hrest⟩
          exact ⟨by omega, hrest⟩
        · rintro ⟨hlast, hrest⟩
          exact ⟨hp, by omega, hrest⟩
      · rename_i hnext
        simp only [List.forall_mem_cons]
        constructor
        · rintro ⟨-, hlast, -⟩
          refine ⟨by omega, fun t' p' hchain _ => ?_⟩
          have := hchain.le
          omega
        · rintro ⟨hlast, -⟩
          exact ⟨hp, by omega, fun off hoff => by cases hoff⟩

end Walk

/-! ### The function as a whole -/

/-- What `ipv6_set_hraw` did is right for the chain behind the header at `nh`. -/
def SetRight (b : Buf) (skbEnd nh protocol : Nat) : Prop :=
  (ipv6SetHraw b skbEnd nh protocol).Right b skbEnd (b.u8 (nh + nexthdrOffset)) (nh + ipv6hdrLen)

/-- The packet has the byte that is read first, it does not end with the fixed header, and no
    header that is searched behind starts at its last byte. -/
structure Mapped (b : Buf) (skbEnd nh : Nat) : Prop where
  nexthdr : nh + nexthdrOffset < skbEnd
  fixed : nh + ipv6hdrLen ≠ skbEnd
  straddle : NoStraddle b skbEnd (b.u8 (nh + nexthdrOffset)) (nh + ipv6hdrLen)

/-- The headers that are taken at once are not searched behind. -/
theorem extLen_transport {b : Buf} {t : Nat} (p : Nat)
    (h : t = IPPROTO_TCP ∨ t = IPPROTO_UDP ∨ t = IPPROTO_ICMPV6) : extLen b t p = none := by
  rcases h with rfl | rfl | rfl <;> rfl

/-- The most common types are only a short cut. -/
theorem ipv6SetHraw_eq {b : Buf} {skbEnd nh : Nat} (protocol : Nat)
    (h : nh + ipv6hdrLen ≤ skbEnd) :
    ipv6SetHraw b skbEnd nh protocol =
      { walk b skbEnd protocol (b.u8 (nh + nexthdrOffset)) (nh + ipv6hdrLen) with
        reads := (nh + nexthdrOffset) ::
          (walk b skbEnd protocol (b.u8 (nh + nexthdrOffset)) (nh + ipv6hdrLen)).reads } := by
  dsimp only [ipv6SetHraw]
  rw [if_neg (Nat.not_lt.mpr h)]
  split
  · rename_i htransport
    rw [walk_found (extLen_transport _ htransport)]
  · rfl

/-- What is set is behind the fixed header. -/
theorem le_ipv6SetHraw_raw {b : Buf} {skbEnd nh protocol raw : Nat}
    (h : (ipv6SetHraw b skbEnd nh protocol).raw = some raw) : nh + ipv6hdrLen ≤ raw := by
  by_cases hshort : skbEnd < nh + ipv6hdrLen
  · have hset : ipv6SetHraw b skbEnd nh protocol =
        { raw := none, protocol := protocol, reads := [nh + nexthdrOffset] } := if_pos hshort
    rw [hset] at h
    cases h
  · rw [ipv6SetHraw_eq protocol (Nat.not_lt.mp hshort)] at h
    exact le_walk_raw h

/-- **The header walk.**  `ipv6_set_hraw` reads bytes of the packet only, and what it sets is
    the first header that is not hop-by-hop, routing, destination options or AH, with its type
    and inside of the packet, exactly when the packet has the next header byte, does not end
    with the fixed header, and no header that is searched behind starts at its last byte. -/
theorem ipv6_set_hraw_right (b : Buf) (skbEnd nh protocol : Nat) :
    SetRight b skbEnd nh protocol ↔ Mapped b skbEnd nh := by
  have hoffsets : nexthdrOffset < ipv6hdrLen := by decide
  unfold SetRight
  by_cases hshort : skbEnd < nh + ipv6hdrLen
  · -- the header is not mapped as a whole: it is left alone
    have hset : ipv6SetHraw b skbEnd nh protocol =
        { raw := none, protocol := protocol, reads := [nh + nexthdrOffset] } := if_pos hshort
    rw [hset]
    constructor
    · intro h
      refine ⟨h.reads _ List.mem_cons_self, by omega, fun t' p' hchain _ => ?_⟩
      have := hchain.le
      omega
    · intro h
      refine ⟨fun off hoff => ?_, fun raw hraw => by cases hraw⟩
      rw [List.mem_singleton] at hoff
      exact hoff ▸ h.nexthdr
  · rw [ipv6SetHraw_eq protocol (Nat.not_lt.mp hshort)]
    by_cases hfixed : nh + ipv6hdrLen = skbEnd
    · -- what is at the end is taken or read
      refine ⟨fun h => ?_, fun h => absurd hfixed h.fixed⟩
      cases hlen : extLen b (b.u8 (nh + nexthdrOffset)) (nh + ipv6hdrLen) with
      | none =>
        rw [walk_found hlen] at h
        have := (h.found _ rfl).2.2
        omega
      | some len =>
        have hread : nh + ipv6hdrLen < skbEnd := by
          apply h.reads
          rw [walk_ext hlen]
          split <;> simp
        omega
    · have hin : nh + ipv6hdrLen < skbEnd := by omega
      have hreads := @walk_reads b skbEnd protocol (skbEnd - (nh + ipv6hdrLen))
        (b.u8 (nh + nexthdrOffset)) _ (Nat.le_refl _) hin
      constructor
      · intro h
        refine ⟨by omega, hfixed, hreads.mp fun off hoff => h.reads off ?_⟩
        exact List.mem_cons_of_mem _ hoff
      · intro h
        refine ⟨?_, fun raw hraw => walk_raw _ _ _ (Nat.le_refl _) hin raw hraw⟩
        intro off hoff
        rcases List.mem_cons.mp hoff with rfl | hoff
        · exact h.nexthdr
        · exact hreads.mpr h.straddle off hoff

/-- A packet whose last byte starts a hop-by-hop header: 55 bytes of which the last is one of
    those behind the fixed header, with the Ethernet header in front. -/
def straddling : Buf := fun _ => 0

theorem option_read_beyond :
    ¬ ∀ (b : Buf) (skbEnd nh protocol : Nat), SetRight b skbEnd nh protocol := by
  intro h
  have hlen : extLen straddling 0 54 = some 8 := rfl
  have hwalk : walk straddling 55 255 0 54 =
      { raw := none, protocol := 255, reads := [54, 55] } := by
    rw [walk_ext hlen]
    rfl
  have hreads : (ipv6SetHraw straddling 55 14 255).reads = [20, 54, 55] := by
    rw [ipv6SetHraw_eq 255 (by decide)]
    exact congrArg (fun found => 20 :: found.reads) hwalk
  have hread := (h straddling 55 14 255).reads 55 (by rw [hreads]; decide)
  exact absurd hread (by decide)

end VmkLinux.Net.MapPkt
