import Resend.Lib.Machine
import Resend.Udp.AckInfoCollector

/-!
# Any sequence of calls on a collector

The bitmap is compacted lazily, by `get_next_ack` and by a `set` that finds its packet out of the
window. What a caller sees depends only on the positions received and on the first one that was
missing at the last compaction.
-/

namespace Resend.Udp

/-- The first position that is missing. -/
def firstMissing (R : Finset Nat) : Nat := Nat.find (Infinite.exists_notMem_finset R)

theorem firstMissing_eq {R : Finset Nat} {k : Nat} (hk : k ∉ R) (hlow : ∀ p < k, p ∈ R) :
    firstMissing R = k :=
  (Nat.find_eq_iff _).2 ⟨hk, fun p hp => not_not.2 (hlow p hp)⟩

/-- A collector, the positions of the calls of `set` that returned 0, and the first position that
was missing at the last compaction. -/
structure AckCalls where
  collector : AckInfoCollector
  received : Finset Nat
  compacted : Nat

/-- A call of `set` for position `pos`, or of `get_next_ack`. -/
inductive AckCall
  | set (pos recvTime : Nat)
  | getNextAck

namespace AckCalls
open AckInfoCollector

def step (s : AckCalls) : AckCall → Option AckCalls
  | .set pos recvTime =>
    if pos * packetMaxDataLength < 2 ^ 32 - packetMaxDataLength then
      let r := s.collector.set (pos * packetMaxDataLength) recvTime
      some ⟨r.2, if r.1.isSome then insert pos s.received else s.received,
        if s.compacted + maxBitNum ≤ pos then firstMissing s.received else s.compacted⟩
    else none
  | .getNextAck => some ⟨s.collector.getNextAck.2, s.received, firstMissing s.received⟩

def machine : Machine AckCalls AckCall where
  init s := s = ⟨.zero, ∅, 0⟩
  step := step

structure Inv (s : AckCalls) : Prop where
  ok : s.collector.Ok (· ∈ s.received)
  compacted : s.collector.lastAckPos = s.compacted
  fits : ∀ p ∈ s.received, (p + 1) * packetMaxDataLength < 2 ^ 32

end AckCalls

namespace AckInfoCollector
variable {c : AckInfoCollector} {R : Finset Nat}

theorem lastAckPos_compact (h : c.Ok (· ∈ R)) : (compact c).lastAckPos = firstMissing R := by
  obtain ⟨hok, -, hnot⟩ := compact_spec h
  exact (firstMissing_eq hnot fun p hp => hok.below p hp).symm

/-- `set` refuses exactly the positions before the last compaction and those out of the window, once
it has been compacted; it compacts only for a position out of the window. -/
theorem set_cases (h : c.Ok (· ∈ R)) (seq recvTime : Nat) :
    ((c.set seq recvTime).1 = none ↔
      seq / packetMaxDataLength < c.lastAckPos ∨
      firstMissing R + maxBitNum ≤ seq / packetMaxDataLength) ∧
    (c.set seq recvTime).2.lastAckPos =
      if c.lastAckPos + maxBitNum ≤ seq / packetMaxDataLength then firstMissing R
        else c.lastAckPos := by
  obtain ⟨c₁, hc₁⟩ : ∃ c₁, (if seq > c.maxSeq then { c with maxSeq := seq } else c) = c₁ := ⟨_, rfl⟩
  have h₁ : c₁.Ok (· ∈ R) ∧ c₁.lastAckPos = c.lastAckPos := by
    rw [← hc₁]
    split <;> exact ⟨h, rfl⟩
  have hle : c.lastAckPos ≤ firstMissing R := by
    rw [← lastAckPos_compact h]
    exact (compact_spec h).2.1
  have hcompact := lastAckPos_compact h₁.1
  obtain ⟨inpos, hinpos⟩ : ∃ q, seq / packetMaxDataLength = q := ⟨_, rfl⟩
  simp only [set, hc₁, h₁.2, hinpos]
  by_cases hlow : inpos < c.lastAckPos
  · rw [if_pos hlow, if_neg (by omega : ¬ c.lastAckPos + maxBitNum ≤ inpos)]
    exact ⟨iff_of_true rfl (.inl hlow), h₁.2⟩
  rw [if_neg hlow]
  by_cases hhigh : c.lastAckPos + maxBitNum ≤ inpos
  · simp only [ge_iff_le, if_pos hhigh, hcompact]
    by_cases hout : firstMissing R + maxBitNum ≤ inpos
    · rw [if_pos hout]
      exact ⟨iff_of_true rfl (.inr hout), hcompact⟩
    · rw [if_neg hout]
      exact ⟨iff_of_false (Option.some_ne_none _) (by omega), rfl⟩
  · simp only [ge_iff_le, if_neg hhigh, h₁.2]
    exact ⟨iff_of_false (Option.some_ne_none _) (by omega), rfl⟩

theorem ok_set (h : c.Ok (· ∈ R)) (pos recvTime : Nat) :
    (c.set (pos * packetMaxDataLength) recvTime).2.Ok
      (· ∈ if (c.set (pos * packetMaxDataLength) recvTime).1.isSome then insert pos R else R) := by
  obtain ⟨hrefused, haccepted⟩ := set_spec h (pos * packetMaxDataLength) recvTime
  rw [Nat.mul_div_cancel _ (by decide)] at haccepted
  cases hres : (c.set (pos * packetMaxDataLength) recvTime).1 with
  | none => exact hrefused hres
  | some old =>
    have hset : (fun q => q ∈ insert pos R) = fun q => q ∈ R ∨ q = pos := by
      funext q
      rw [Finset.mem_insert, or_comm]
    show AckInfoCollector.Ok _ fun q => q ∈ insert pos R
    rw [hset]
    exact (haccepted old hres).1

end AckInfoCollector

namespace AckCalls
open AckInfoCollector
variable {s s' : AckCalls}

theorem firstMissing_lt (h : Inv s) : (firstMissing s.received) * packetMaxDataLength < 2 ^ 32 := by
  rcases Nat.eq_zero_or_pos (firstMissing s.received) with hz | hpos
  · rw [hz]
    decide
  · have hmem : firstMissing s.received - 1 ∈ s.received :=
      not_not.1 (Nat.find_min (Infinite.exists_notMem_finset s.received) (Nat.sub_one_lt_of_lt hpos))
    have := h.fits _ hmem
    rwa [Nat.sub_add_cancel hpos] at this

theorem Inv.step (h : Inv s) {call : AckCall} (hs : s.step call = some s') : Inv s' := by
  cases call with
  | set pos recvTime =>
    simp only [AckCalls.step, Option.ite_none_right_eq_some, Option.some.injEq] at hs
    obtain ⟨hpos, rfl⟩ := hs
    have hinpos : pos * packetMaxDataLength / packetMaxDataLength = pos :=
      Nat.mul_div_cancel _ (by decide)
    obtain ⟨-, hlast⟩ := set_cases h.ok (pos * packetMaxDataLength) recvTime
    rw [hinpos, h.compacted] at hlast
    refine ⟨ok_set h.ok pos recvTime, hlast, fun p hp => ?_⟩
    replace hp : p ∈ if (s.collector.set (pos * packetMaxDataLength) recvTime).1.isSome then
      insert pos s.received
      else s.received := hp
    split at hp
    · rcases Finset.mem_insert.1 hp with rfl | hp
      · rw [Nat.add_mul, Nat.one_mul]
        exact Nat.add_lt_of_lt_sub hpos
      · exact h.fits p hp
    · exact h.fits p hp
  | getNextAck =>
    simp only [AckCalls.step, Option.some.injEq] at hs
    subst hs
    exact ⟨(getNextAck_spec h.ok).1,
      lastAckPos_compact (c := { s.collector with ackTime := 0 }) h.ok, h.fits⟩

/-- After any calls: `get_next_ack` stops and names the first missing position; `set` refuses a
position exactly when it lies before the last compaction or out of the window of the first missing
one. -/
theorem calls_refine (h : machine.Reach s) :
    ((∀ n > maxBitNum, nextAckLoop n { s.collector with ackTime := 0 } = s.collector.getNextAck.2) ∧
      s.collector.getNextAck.1.2.1 = firstMissing s.received * packetMaxDataLength) ∧
    ∀ pos recvTime, pos * packetMaxDataLength < 2 ^ 32 - packetMaxDataLength →
      ((s.collector.set (pos * packetMaxDataLength) recvTime).1 = none ↔
        pos < s.compacted ∨ firstMissing s.received + maxBitNum ≤ pos) := by
  have hI : Inv s := by
    refine h.invariant ?_ fun s call s' hI _ hs => hI.step hs
    rintro s rfl
    exact ⟨by simpa using ok_zero, rfl, by simp⟩
  refine ⟨⟨fun n hn => ?_, ?_⟩, fun pos recvTime hpos => ?_⟩
  · exact nextAckLoop_stops (c := { s.collector with ackTime := 0 }) hI.ok (Ok.gap hI.ok) hn
  · obtain ⟨-, -, hseq⟩ := getNextAck_spec hI.ok
    have hlast : s.collector.getNextAck.2.lastAckPos = firstMissing s.received :=
      lastAckPos_compact (c := { s.collector with ackTime := 0 }) hI.ok
    rw [hseq, hlast, u32_of_lt (firstMissing_lt hI)]
  · have hset := (set_cases hI.ok (pos * packetMaxDataLength) recvTime).1
    rwa [Nat.mul_div_cancel _ (by decide), hI.compacted] at hset

/-- Positions 0 and 2 have come in; 1 is missing. -/
theorem calls_refine_gap : ∃ s, machine.Reach s ∧ s.received = {0, 2} ∧
    s.collector.getNextAck.1.2.1 = firstMissing {0, 2} * packetMaxDataLength := by
  have hrun : ((machine.run ⟨.zero, ∅, 0⟩ [.set 0 7, .set 2 7]).map (·.received)) = some {0, 2} :=
    by decide +kernel
  obtain ⟨s, hs, heq⟩ := Option.map_eq_some_iff.1 hrun
  have hreach : machine.Reach s := Machine.ReachUnder.run (M := machine) (.init rfl) hs
  exact ⟨s, hreach, heq, heq ▸ (calls_refine hreach).1.2⟩

end AckCalls

end Resend.Udp
