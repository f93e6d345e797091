import Resend.Lib.Window
import Resend.Udp.Wire

/-!
# The ack collector of a complex reader

`HDS_UDP_Connection_Ack_Info_Collector` run by one thread at a time: `set` records a packet,
`getNextAck` moves `lastAckPos` over the packets recorded without a gap. `Ok c R` ties the bitmap to
the set `R` of packet positions recorded so far (`Window.Exact` of width 3072).
-/

namespace Resend.Udp

inductive AckType
  | ack
  | sack
deriving DecidableEq, Repr

structure AckInfoCollector where
  bitmap : Nat → Word
  lastAckPos : Nat
  maxSeq : Nat
  ackTime : Nat
  lastRecvTime : Nat

namespace AckInfoCollector

/-- A collector after `memset`. -/
def zero : AckInfoCollector := ⟨fun _ => 0#64, 0, 0, 0, 0⟩

/-- `_bitmap[pos/LONG_HAS_BIT].AtomicBitTestAndSet(pos%LONG_HAS_BIT)`. -/
def bitTestAndSet (c : AckInfoCollector) (pos : Nat) : Int × AckInfoCollector :=
  let r := (c.bitmap (pos / 64)).testAndSet (pos % 64)
  (r.1, { c with bitmap := Function.update c.bitmap (pos / 64) r.2 })

/-- `_bitmap[pos/LONG_HAS_BIT].AtomicBitTestAndReset(pos%LONG_HAS_BIT)`. -/
def bitTestAndReset (c : AckInfoCollector) (pos : Nat) : Int × AckInfoCollector :=
  let r := (c.bitmap (pos / 64)).testAndReset (pos % 64)
  (r.1, { c with bitmap := Function.update c.bitmap (pos / 64) r.2 })

/-- The loop of `_get_next_ack`. Undisturbed, its compare-exchange always succeeds. -/
def nextAckLoop : Nat → AckInfoCollector → AckInfoCollector
  | 0, c => c
  | n + 1, c =>
    let r := c.bitTestAndReset (c.lastAckPos % maxBitNum)
    if r.1 = 0 then r.2 else nextAckLoop n { r.2 with lastAckPos := c.lastAckPos + 1 }

/-- Advance over everything recorded: each round clears a bit, so 3073 rounds always get to a clear
one (`nextAckLoop_spec`). -/
def compact (c : AckInfoCollector) : AckInfoCollector := nextAckLoop (maxBitNum + 1) c

/-- `set`: `none` is the result `-1`, `some old` is `0` with `*oldvalue = old`. -/
def set (c : AckInfoCollector) (seq recvTime : Nat) : Option Int × AckInfoCollector :=
  let inpos := seq / packetMaxDataLength
  let c := if seq > c.maxSeq then { c with maxSeq := seq } else c
  if inpos < c.lastAckPos then (none, c)
  else
    let c := if inpos ≥ c.lastAckPos + maxBitNum then compact c else c
    if inpos ≥ c.lastAckPos + maxBitNum then (none, c)
    else
      let c :=
        { c with
          ackTime := if c.ackTime = 0 then recvTime else c.ackTime, lastRecvTime := recvTime }
      let r := c.bitTestAndSet (inpos % maxBitNum)
      (some r.1, r.2)

/-- `get_next_ack`: the kind of ack, its sequence number and the echoed send time. -/
def getNextAck (c : AckInfoCollector) : (AckType × Nat × Nat) × AckInfoCollector :=
  let ackTime := if c.ackTime = 0 then c.lastRecvTime else c.ackTime
  let c := compact { c with ackTime := 0 }
  let seq := u32 (c.lastAckPos * packetMaxDataLength)
  ((if c.maxSeq ≠ sub32 seq packetMaxDataLength then .sack else .ack, seq, ackTime), c)

/-- The positions `R` recorded so far are exactly what the bitmap and `lastAckPos` say. -/
def Ok (c : AckInfoCollector) (R : Nat → Prop) : Prop :=
  Window.Exact maxBitNum (bitOf c.bitmap) c.lastAckPos R

/-- The positions a collector has recorded. -/
def Recorded (c : AckInfoCollector) : Nat → Prop :=
  Window.Marked maxBitNum (bitOf c.bitmap) c.lastAckPos

variable {c : AckInfoCollector} {R : Nat → Prop}

theorem Ok.eq_recorded (h : c.Ok R) : R = c.Recorded := Window.Exact.eq_marked h

theorem ok_zero : Ok zero fun _ => False := by
  have : bitOf zero.bitmap = fun _ => false := by funext i; simp [bitOf, zero]
  unfold Ok; rw [this]; exact Window.Exact.init

theorem bitOf_bitTestAndSet (c : AckInfoCollector) (pos i : Nat) :
    bitOf (c.bitTestAndSet pos).2.bitmap i = (bitOf c.bitmap i || decide (i = pos)) :=
  bitOf_set c.bitmap pos i

theorem bitOf_bitTestAndReset (c : AckInfoCollector) (pos i : Nat) :
    bitOf (c.bitTestAndReset pos).2.bitmap i = (bitOf c.bitmap i && !decide (i = pos)) :=
  bitOf_reset c.bitmap pos i

theorem nextAckLoop_frame (n : Nat) (c : AckInfoCollector) :
    (nextAckLoop n c).maxSeq = c.maxSeq ∧ (nextAckLoop n c).ackTime = c.ackTime ∧
      (nextAckLoop n c).lastRecvTime = c.lastRecvTime := by
  induction n generalizing c with
  | zero => exact ⟨rfl, rfl, rfl⟩
  | succ n ih =>
    simp only [nextAckLoop]
    split
    · exact ⟨rfl, rfl, rfl⟩
    · exact ih _

theorem Ok.advance (h : c.Ok R) (hold : (c.bitTestAndReset (c.lastAckPos % maxBitNum)).1 ≠ 0) :
    R c.lastAckPos ∧ Ok { (c.bitTestAndReset (c.lastAckPos % maxBitNum)).2 with
      lastAckPos := c.lastAckPos + 1 } R := by
  have hone : bitOf c.bitmap (c.lastAckPos % maxBitNum) = true := by
    rw [← Bool.not_eq_false]
    exact fun hf => hold ((oldBit_bitOf _ _).2 hf)
  exact ⟨(h.base_mem_iff (by decide)).1 hone,
    Window.Exact.advance h (by decide) hone (bitOf_bitTestAndReset c _)⟩

theorem gap_advance {base n : Nat} (hR : R base) (hgap : ∃ k < n + 1, ¬ R (base + k)) :
    ∃ k < n, ¬ R (base + 1 + k) := by
  obtain ⟨k, hk, hgap⟩ := hgap
  have hk0 : k ≠ 0 := by rintro rfl; exact hgap hR
  exact ⟨k - 1, by omega, by rwa [show base + 1 + (k - 1) = base + k by omega]⟩

/-- With a position not recorded less than `n` away, the loop stops at the first one. -/
theorem nextAckLoop_spec (n : Nat) (h : c.Ok R) (hgap : ∃ k < n, ¬ R (c.lastAckPos + k)) :
    (nextAckLoop n c).Ok R ∧ c.lastAckPos ≤ (nextAckLoop n c).lastAckPos ∧
      ¬ R (nextAckLoop n c).lastAckPos := by
  induction n generalizing c with
  | zero => obtain ⟨k, hk, -⟩ := hgap; omega
  | succ n ih =>
    simp only [nextAckLoop]
    split
    · rename_i hz
      have hz : bitOf c.bitmap (c.lastAckPos % maxBitNum) = false := (oldBit_bitOf _ _).1 hz
      refine ⟨h.clear_of_not hz (bitOf_bitTestAndReset c _), Nat.le_refl _, fun hR => ?_⟩
      rw [(h.base_mem_iff (by decide)).2 hR] at hz
      cases hz
    · rename_i hz
      obtain ⟨hR, hnext⟩ := h.advance hz
      obtain ⟨h1, h2, h3⟩ := ih hnext (gap_advance hR hgap)
      exact ⟨h1, Nat.le_of_succ_le h2, h3⟩

theorem nextAckLoop_stops {m n : Nat} (h : c.Ok R) (hgap : ∃ k < n, ¬ R (c.lastAckPos + k))
    (hle : n ≤ m) :
    nextAckLoop m c = nextAckLoop n c := by
  induction n generalizing c m with
  | zero => obtain ⟨k, hk, -⟩ := hgap; omega
  | succ n ih =>
    obtain ⟨m, rfl⟩ := Nat.exists_eq_add_of_le' hle
    rw [show m + (n + 1) = m + n + 1 by omega, nextAckLoop, nextAckLoop]
    simp only
    split
    · rfl
    · rename_i hz
      obtain ⟨hR, hnext⟩ := h.advance hz
      exact ih hnext (gap_advance hR hgap) (by omega)

theorem Ok.gap (h : c.Ok R) : ∃ k < maxBitNum + 1, ¬ R (c.lastAckPos + k) := by
  refine ⟨maxBitNum, Nat.lt_succ_self _, fun hR => ?_⟩
  have := (h.known _ (Nat.le_add_right _ _) hR).1
  omega

theorem compact_spec (h : c.Ok R) :
    (compact c).Ok R ∧ c.lastAckPos ≤ (compact c).lastAckPos ∧ ¬ R (compact c).lastAckPos :=
  nextAckLoop_spec _ h h.gap

theorem set_spec (h : c.Ok R) (seq recvTime : Nat) :
    ((c.set seq recvTime).1 = none → (c.set seq recvTime).2.Ok R) ∧
    (∀ old, (c.set seq recvTime).1 = some old →
      (c.set seq recvTime).2.Ok (fun q => R q ∨ q = seq / packetMaxDataLength) ∧
      (old = 0 ↔ ¬ R (seq / packetMaxDataLength))) := by
  unfold set
  simp only
  set c₁ := if seq > c.maxSeq then { c with maxSeq := seq } else c with hc₁
  have h₁ : c₁.Ok R := by rw [hc₁]; split <;> exact h
  split
  · exact ⟨fun _ => h₁, fun _ he => by cases he⟩
  rename_i hlow
  set c₂ := if seq / packetMaxDataLength ≥ c₁.lastAckPos + maxBitNum then compact c₁ else c₁ with hc₂
  have h₂ : c₂.Ok R ∧ c₂.lastAckPos ≤ seq / packetMaxDataLength := by
    rw [hc₂]
    split
    · obtain ⟨h2, h3, h4⟩ := compact_spec h₁
      refine ⟨h2, ?_⟩
      by_contra hlt
      -- the compaction passes only recorded positions, and `inpos` was out of the window before
      have hR := h2.below _ (Nat.lt_of_not_le hlt)
      have := (h₁.known _ (by omega) hR).1
      omega
    · exact ⟨h₁, by omega⟩
  split
  · exact ⟨fun _ => h₂.1, fun _ he => by cases he⟩
  rename_i hhigh
  have hhigh : seq / packetMaxDataLength < c₂.lastAckPos + maxBitNum := by omega
  refine ⟨fun he => (by cases he), fun old he => ?_⟩
  cases he
  refine ⟨Window.Exact.set h₂.1 h₂.2 hhigh (bitOf_bitTestAndSet _ _), ?_⟩
  refine (oldBit_bitOf _ _).trans ?_
  rw [← Bool.not_eq_true]
  exact not_congr (Window.Exact.mem_iff h₂.1 h₂.2 hhigh)

/-- `getNextAck` acknowledges the positions up to the first one not recorded. -/
theorem getNextAck_spec (h : c.Ok R) :
    c.getNextAck.2.Ok R ∧ ¬ R c.getNextAck.2.lastAckPos ∧
      c.getNextAck.1.2.1 = u32 (c.getNextAck.2.lastAckPos * packetMaxDataLength) := by
  obtain ⟨h1, -, h3⟩ := compact_spec (c := { c with ackTime := 0 }) h
  exact ⟨h1, h3, rfl⟩

theorem lastAckPos_le_nextAckLoop (n : Nat) (c : AckInfoCollector) :
    c.lastAckPos ≤ (nextAckLoop n c).lastAckPos := by
  induction n generalizing c with
  | zero => exact Nat.le_refl _
  | succ n ih =>
    simp only [nextAckLoop]
    split
    · exact Nat.le_refl _
    · exact Nat.le_of_succ_le (ih { (c.bitTestAndReset _).2 with lastAckPos := c.lastAckPos + 1 })

/-- Nothing has come in since the last ack. -/
def Settled (c : AckInfoCollector) : Prop :=
  c.ackTime = 0 ∧ bitOf c.bitmap (c.lastAckPos % maxBitNum) = false

theorem bitTestAndReset_of_clear {pos : Nat} (h : bitOf c.bitmap pos = false) :
    (c.bitTestAndReset pos).2 = c := by
  have hword : ((c.bitmap (pos / 64)).testAndReset (pos % 64)).2 = c.bitmap (pos / 64) :=
    (Word.testAndReset_eq_self_iff _ (Nat.mod_lt _ (by decide))).2 h
  simp only [bitTestAndReset, hword, Function.update_eq_self]

theorem nextAckLoop_of_clear (n : Nat) (h : bitOf c.bitmap (c.lastAckPos % maxBitNum) = false) :
    nextAckLoop (n + 1) c = c := by
  have hzero : (c.bitTestAndReset (c.lastAckPos % maxBitNum)).1 = 0 := (oldBit_bitOf _ _).2 h
  rw [nextAckLoop, if_pos hzero]
  exact bitTestAndReset_of_clear h

theorem lt_nextAckLoop_of_set (n : Nat) (h : bitOf c.bitmap (c.lastAckPos % maxBitNum) = true) :
    c.lastAckPos < (nextAckLoop (n + 1) c).lastAckPos := by
  have hzero : (c.bitTestAndReset (c.lastAckPos % maxBitNum)).1 ≠ 0 := by
    intro h0
    rw [(oldBit_bitOf _ _).1 h0] at h
    cases h
  rw [nextAckLoop, if_neg hzero]
  exact lastAckPos_le_nextAckLoop n { (c.bitTestAndReset _).2 with lastAckPos := c.lastAckPos + 1 }

theorem getNextAck_eq_self_iff (c : AckInfoCollector) : c.getNextAck.2 = c ↔ c.Settled := by
  have heq : c.getNextAck.2 = nextAckLoop (maxBitNum + 1) { c with ackTime := 0 } := rfl
  constructor
  · intro h
    have htime : c.ackTime = 0 := by
      rw [← h, heq]
      exact (nextAckLoop_frame (maxBitNum + 1) { c with ackTime := 0 }).2.1
    refine ⟨htime, ?_⟩
    rw [← Bool.not_eq_true]
    intro hbit
    have hlt := lt_nextAckLoop_of_set (c := { c with ackTime := 0 }) maxBitNum hbit
    rw [← heq, h] at hlt
    exact absurd hlt (Nat.lt_irrefl _)
  · rintro ⟨htime, hbit⟩
    have hc : ({ c with ackTime := 0 } : AckInfoCollector) = c := by rw [← htime]
    rw [heq, hc]
    exact nextAckLoop_of_clear maxBitNum hbit

end AckInfoCollector

end Resend.Udp
