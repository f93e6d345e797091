import Resend.Udp.Lifecycle
import Resend.Udp.PoolBase

/-!
# The buffer pools

`Buffer_Pool`: sizes up to `512` come from 64 pools with objects of `8`, `16`, ... bytes, larger
ones from `malloc`. A size is an `int`, and `start_recver` hands it the unsigned length of a
transfer.
-/

namespace Resend.Udp

/-- Where `get_buffer` takes memory from and `release_buffer` gives it back to. -/
inductive Allocator
  | pool (offset : Int)
  | malloc
deriving DecidableEq

/-- A buffer with the bytes that it holds. -/
structure PoolBuffer where
  address : Nat
  bytes : Nat

/-- What `malloc` returns in a call of `get_buffer`: the table and the block of `init`, those of
`get_object`, and the buffer itself. -/
structure Mallocs where
  initTable : Bool
  initBlock : Option Nat
  table : Bool
  block : Option Nat
  buffer : Option Nat

/-- `_pool_base_array`; nothing where `_buf_list` is `0`. -/
abbrev BufferPool := Int → Option PoolBase

namespace BufferPool

/-- `(size-1)/HDS_UDP_BUFFER_POOL_CTRL_UNIT`. -/
def offset (size : Int) : Int := (wrapInt (size - 1)).tdiv 8

/-- The test on `offset` that `get_buffer` and `release_buffer` make. -/
def allocator (size : Int) : Allocator := if offset size < 64 then .pool (offset size) else .malloc

/-- `_pool_base_array[offset]`, set up if it is not yet; nothing for an index outside the array. -/
def poolAt (pools : BufferPool) (offset : Int) (e : Mallocs) : Option PoolBase :=
  if 0 ≤ offset ∧ offset < 64 then
    (pools offset).or (PoolBase.init true (wrapInt ((offset + 1) * 8)) e.initTable e.initBlock)
  else none

/-- `get_buffer`. An object of a pool holds `_malloc_size` bytes. -/
def getBuffer (pools : BufferPool) (size : Int) (e : Mallocs) :
    Option (BufferPool × Option PoolBuffer) :=
  match allocator size with
  | .pool offset => (pools.poolAt offset e).bind fun p => (p.getObject e.table e.block).map fun r =>
    (Function.update pools offset (some r.1), r.2.map fun a => ⟨a, p.mallocSize.toNat⟩)
  | .malloc => some (pools, e.buffer.map fun a => ⟨a, PoolBase.sizeT size⟩)

/-- `release_buffer`; no object comes from a pool that is not set up. -/
def releaseBuffer (pools : BufferPool) (ptr : Nat) (size : Int) : Option BufferPool :=
  match allocator size with
  | .pool offset => (pools offset).bind fun p => (p.releaseObject ptr).map fun p =>
    Function.update pools offset (some p)
  | .malloc => some pools

inductive Op
  | getBuffer (size : Int) (e : Mallocs)
  | releaseBuffer (ptr : Nat) (size : Int)

/-- Calls one after the other, after `Buffer_Pool::init`. -/
def machine : Machine BufferPool Op where
  init pools := pools = fun _ => none
  step pools op := match op with
    | .getBuffer size e => (pools.getBuffer size e).map Prod.fst
    | .releaseBuffer ptr size => pools.releaseBuffer ptr size

/-- A tag of a buffer names the allocator. -/
def Named : RecvBufType → Allocator → Prop
  | .poolSpace, .pool _ => True
  | .mallocSpaceDel, .malloc => True
  | _, _ => False

/-- What is asked for a transfer of `length` bytes whose buffer `start_recver` takes from
`get_buffer`. -/
structure Right (pools : BufferPool) (length : Nat) : Prop where
  index : ∀ offset, allocator (toInt32 length) = .pool offset → 0 ≤ offset ∧ offset ≤ 63
  holds : ∀ e pools' b, pools.getBuffer (toInt32 length) e = some (pools', some b) → length ≤ b.bytes
  tag : ∀ attr content c c', c.transmitBufLength = length → c.transmitBuf = none →
    (∀ a, attr = some a → a.recvBuf = none) → equipReader attr (some content) c = some c' →
    Named c'.recvBufType (allocator (toInt32 length)) ∧
      allocator (toInt32 c'.transmitBufLength) = allocator (toInt32 length)

/-- Pool `k` has objects of `8 * (k + 1)` bytes. -/
def Sized (pools : BufferPool) : Prop := ∀ k p, pools k = some p → p.mallocSize = 8 * (k + 1)

section sizes
variable {pools pools' : BufferPool} {p p' : PoolBase} {length : Nat} {size k : Int} {e : Mallocs}
  {r : Option Nat} {ptr : Nat}

theorem init_mallocSize {hasMutex table : Bool} {block : Option Nat}
    (h : PoolBase.init hasMutex size table block = some p) :
    p.mallocSize = size := by
  rw [PoolBase.init] at h
  split at h
  · obtain ⟨head, -, h⟩ := Option.bind_eq_some_iff.1 h
    obtain ⟨m, -, rfl⟩ := Option.map_eq_some_iff.1 h
    rfl
  · cases h

theorem makeRoom_mallocSize {table : Bool} (h : p.makeRoom table = some p') :
    p'.mallocSize = p.mallocSize := by
  rw [PoolBase.makeRoom] at h
  split_ifs at h <;> cases h <;> rfl

theorem addBlock_mallocSize {nnode : Nat} (h : p.addBlock nnode = some p') :
    p'.mallocSize = p.mallocSize := by
  rw [PoolBase.addBlock] at h
  split at h
  · obtain ⟨m, -, rfl⟩ := Option.map_eq_some_iff.1 h
    rfl
  · cases h

theorem getObject_mallocSize {table : Bool} {block : Option Nat}
    (h : p.getObject table block = some (p', r)) :
    p'.mallocSize = p.mallocSize := by
  unfold PoolBase.getObject at h
  split at h
  · cases h
  split at h
  · obtain ⟨c, -, hc⟩ := Option.map_eq_some_iff.1 h
    cases hc
    rfl
  · split at h
    case h_1 => cases h; rfl
    case h_2 _ p₁ hroom => cases h; exact makeRoom_mallocSize hroom
    case h_3 _ p₁ nnode hroom =>
      obtain ⟨p₂, hp₂, hc⟩ := Option.map_eq_some_iff.1 h
      cases hc
      exact (addBlock_mallocSize hp₂).trans (makeRoom_mallocSize hroom)

theorem releaseObject_mallocSize (h : p.releaseObject ptr = some p') :
    p'.mallocSize = p.mallocSize := by
  rw [PoolBase.releaseObject] at h
  split at h
  · cases h
  · obtain ⟨m, -, rfl⟩ := Option.map_eq_some_iff.1 h
    rfl

theorem Sized.poolAt (h : Sized pools) (hp : pools.poolAt k e = some p) :
    0 ≤ k ∧ k < 64 ∧ p.mallocSize = 8 * (k + 1) := by
  rw [BufferPool.poolAt] at hp
  split at hp
  · rename_i hk
    refine ⟨hk.1, hk.2, ?_⟩
    rcases hpool : pools k with _ | q
    · rw [hpool, Option.none_or] at hp
      rw [init_mallocSize hp, TimerWheel.wrapInt_of_fits (by omega) (by omega)]
      omega
    · rw [hpool, Option.some_or] at hp
      cases hp
      exact h k _ hpool
  · cases hp

theorem Sized.update (h : Sized pools) (hp : p.mallocSize = 8 * (k + 1)) :
    Sized (Function.update pools k (some p)) := by
  intro j q hq
  rcases eq_or_ne j k with rfl | hne
  · rw [Function.update_self] at hq
    cases hq
    exact hp
  · rw [Function.update_of_ne hne] at hq
    exact h j q hq

theorem Sized.getBuffer {b : Option PoolBuffer} (h : Sized pools)
    (hg : pools.getBuffer size e = some (pools', b)) :
    Sized pools' := by
  rw [BufferPool.getBuffer] at hg
  split at hg
  · obtain ⟨p, hp, hg⟩ := Option.bind_eq_some_iff.1 hg
    obtain ⟨r, hr, hg⟩ := Option.map_eq_some_iff.1 hg
    cases hg
    exact h.update ((getObject_mallocSize hr).trans (h.poolAt hp).2.2)
  · cases hg
    exact h

theorem Sized.releaseBuffer (h : Sized pools) (hr : pools.releaseBuffer ptr size = some pools') :
    Sized pools' := by
  rw [BufferPool.releaseBuffer] at hr
  split at hr
  · obtain ⟨p, hp, hr⟩ := Option.bind_eq_some_iff.1 hr
    obtain ⟨p', hp', rfl⟩ := Option.map_eq_some_iff.1 hr
    exact h.update ((releaseObject_mallocSize hp').trans (h _ p hp))
  · cases hr
    exact h

theorem reach_sized (h : machine.Reach pools) : Sized pools := by
  refine h.invariant (fun pools h0 => ?_) fun pools op pools' hsized _ hs => ?_
  · rintro k p hp
    rw [show pools = fun _ => none from h0] at hp
    cases hp
  · cases op with
    | getBuffer size e =>
      obtain ⟨⟨pools'', b⟩, hg, rfl⟩ := Option.map_eq_some_iff.1 hs
      exact hsized.getBuffer hg
    | releaseBuffer ptr size => exact hsized.releaseBuffer hs

/-! ### Lengths -/

theorem allocator_small (h1 : 1 ≤ length) (h2 : length < 2 ^ 31) :
    allocator (toInt32 length) = if length ≤ 512 then .pool ((length - 1 : Nat) / 8) else .malloc := by
  have hoffset : offset (toInt32 length) = ((length - 1 : Nat) : Int) / 8 := by
    rw [offset, toInt32, if_pos h2, TimerWheel.wrapInt_of_fits (by omega) (by omega),
      Int.tdiv_eq_ediv_of_nonneg (by omega)]
    omega
  rw [allocator, hoffset]
  by_cases hle : length ≤ 512
  · rw [if_pos hle, if_pos (by omega)]
  · rw [if_neg hle, if_neg (by omega)]

theorem allocator_two_pow : allocator (toInt32 (2 ^ 31)) = .malloc := by decide +kernel

theorem allocator_large (h1 : 2 ^ 31 < length) (h2 : length < 2 ^ 32) :
    ∃ k, allocator (toInt32 length) = .pool k := by
  have hsize : toInt32 length - 1 = -((2 ^ 32 + 1 - length : Nat) : Int) := by
    rw [toInt32, if_neg (by omega)]
    omega
  have hoffset : offset (toInt32 length) < 64 := by
    rw [offset, hsize, TimerWheel.wrapInt_of_fits (by omega) (by omega), Int.neg_tdiv,
      Int.tdiv_eq_ediv_of_nonneg (by omega)]
    omega
  exact ⟨_, if_pos hoffset⟩

theorem recvBufType_of_fallback {attr : Option RecvVerificationAttribute} {content : List UInt8}
    {c c' : Connection} (hc : c.transmitBuf = none) (hattr : ∀ a, attr = some a → a.recvBuf = none)
    (h : equipReader attr (some content) c = some c') : c'.transmitBufLength = c.transmitBufLength ∧
      c'.recvBufType = if c.transmitBufLength > bufferPoolMaxCtlSize then .mallocSpaceDel
        else .poolSpace := by
  obtain ⟨c₁, h1, h2⟩ := Option.bind_eq_some_iff.1 h
  have hc₁ : c₁.transmitBuf = none ∧ c₁.transmitBufLength = c.transmitBufLength := by
    cases attr with
    | none =>
      cases h1
      exact ⟨hc, rfl⟩
    | some a =>
      dsimp only at h1
      split at h1
      · cases h1
        exact ⟨hattr a rfl, rfl⟩
      · cases h1
  rw [if_neg (by rw [hc₁.1]; exact Bool.false_ne_true)] at h2
  cases h2
  rw [← hc₁.2]
  exact ⟨rfl, rfl⟩

theorem right_of_pool (hs : Sized pools) (h1 : 1 ≤ length) (h2 : length ≤ 512) :
    Right pools length := by
  have hall : allocator (toInt32 length) = .pool ((length - 1 : Nat) / 8) := by
    rw [allocator_small h1 (by omega), if_pos h2]
  refine ⟨fun k hk => ?_, fun e pools' b hb => ?_, fun attr content c c' hlen hc hattr hc' => ?_⟩
  · rw [hall] at hk
    cases hk
    omega
  · rw [getBuffer, hall] at hb
    obtain ⟨p, hp, hb⟩ := Option.bind_eq_some_iff.1 hb
    obtain ⟨r, hr, hb⟩ := Option.map_eq_some_iff.1 hb
    obtain ⟨-, hb⟩ := Prod.mk.inj hb
    obtain ⟨a, -, rfl⟩ := Option.map_eq_some_iff.1 hb
    obtain ⟨-, -, hsize⟩ := hs.poolAt hp
    show length ≤ p.mallocSize.toNat
    omega
  · obtain ⟨hlen', htag⟩ := recvBufType_of_fallback hc hattr hc'
    rw [if_neg (by rw [hlen]; exact not_lt.2 h2)] at htag
    rw [htag, hlen', hlen, hall]
    exact ⟨trivial, rfl⟩

theorem right_of_malloc (h1 : 512 < length) (h2 : length ≤ 2 ^ 31) : Right pools length := by
  have hall : allocator (toInt32 length) = .malloc := by
    rcases Nat.eq_or_lt_of_le h2 with rfl | hlt
    · exact allocator_two_pow
    · rw [allocator_small (by omega) hlt, if_neg (by omega)]
  refine ⟨fun k hk => ?_, fun e pools' b hb => ?_, fun attr content c c' hlen hc hattr hc' => ?_⟩
  · rw [hall] at hk
    cases hk
  · rw [getBuffer, hall] at hb
    obtain ⟨-, hb⟩ := Prod.mk.inj (Option.some.inj hb)
    obtain ⟨a, -, rfl⟩ := Option.map_eq_some_iff.1 hb
    show length ≤ PoolBase.sizeT _
    rw [toInt32, PoolBase.sizeT]
    split <;> omega
  · obtain ⟨hlen', htag⟩ := recvBufType_of_fallback hc hattr hc'
    rw [if_pos (by rw [hlen]; exact h1)] at htag
    rw [htag, hlen', hlen, hall]
    exact ⟨trivial, rfl⟩

theorem not_right (h1 : 2 ^ 31 < length) (h2 : length < 2 ^ 32) : ¬ Right pools length := by
  intro h
  obtain ⟨k, hk⟩ := allocator_large h1 h2
  obtain ⟨c, hlen, hc⟩ : ∃ c : Connection, c.transmitBufLength = length ∧ c.transmitBuf = none :=
    ⟨{ Connection.construct .complexReader with transmitBufLength := length }, rfl, rfl⟩
  obtain ⟨c', hc'⟩ : ∃ c', equipReader none (some []) c = some c' := by
    rw [equipReader, Option.bind_some, hc]
    exact ⟨_, rfl⟩
  have hattr : ∀ a : RecvVerificationAttribute, none = some a → a.recvBuf = none := nofun
  obtain ⟨hnamed, -⟩ := h.tag none [] c c' hlen hc hattr hc'
  have htag := (recvBufType_of_fallback hc hattr hc').2
  rw [if_pos (by rw [hlen]; exact lt_trans (by decide) h1)] at htag
  rw [hk, htag] at hnamed
  exact hnamed

/-- In every state of the pools the buffer of a transfer is right just for lengths up to `2 ^ 31`. -/
theorem right_iff_le (h : machine.Reach pools) (h1 : 1 ≤ length) (h2 : length < 2 ^ 32) :
    Right pools length ↔ length ≤ 2 ^ 31 := by
  constructor
  · intro hright
    by_contra hgt
    exact not_right (not_le.1 hgt) h2 hright
  · intro hle
    rcases Nat.lt_or_ge 512 length with hbig | hsmall
    · exact right_of_malloc hbig hle
    · exact right_of_pool (reach_sized h) h1 hsmall

/-- Lengths of 1000 bytes. -/
theorem right_iff_le_1000 : Right (fun _ => none) 1000 ↔ 1000 ≤ 2 ^ 31 :=
  right_iff_le (.init rfl) (by decide) (by decide)

/-- The length `2 ^ 31 + 1` is asked of pool `-2 ^ 28`. -/
theorem exists_pool_below :
    ¬ ∀ (pools : BufferPool) (length : Nat), machine.Reach pools → 1 ≤ length → length < 2 ^ 32 →
      Right pools length := by
  intro hall
  have hright := hall (fun _ => none) 2147483649 (.init rfl) (by decide) (by decide)
  obtain ⟨hindex, -⟩ := hright.index (-268435456) (by decide +kernel)
  exact absurd hindex (by decide)

end sizes

end BufferPool

end Resend.Udp
