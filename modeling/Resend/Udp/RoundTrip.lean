import Resend.Udp.Lifecycle

/-!
# The round-trip estimator

The rule in the comment above `set_connection_RTO`, in integers, and what the macro makes of it.
Both agree on the first sample. On a later one the missing parentheses of `rto_diff` let the macro
drop `3*_RTTVAR` from the sum, which goes unnoticed only while `_RTTVAR` is too small to matter.
-/

namespace Resend.Udp
open Handler Connection ConM

/-- An ack that echoes `sendTime` at clock reading `now`, or a timeout. -/
inductive RtoEvent
  | sample (now sendTime : Nat)
  | timeOut

/-- The round-trip time of an ack. -/
def roundTripTime (now sendTime : Nat) : Int := toInt32 (sub32 now sendTime)

/-- Round-trip times are positive. -/
def RtoEvent.Positive : RtoEvent → Prop
  | .sample now sendTime => 0 < roundTripTime now sendTime
  | .timeOut => True

/-- The macro run for an event. -/
def Connection.refreshRTO (c : Connection) : RtoEvent → Connection
  | .sample now sendTime => (exec (setConnectionRTO now sendTime) c).1
  | .timeOut => (exec setConnectionRTODouble c).1

/-! ### The rule -/

structure Estimate where
  sampled : Bool
  srtt : Int
  rttvar : Int
  rto : Int

namespace Estimate

def start : Estimate := ⟨false, 0, 0, connectionDefaultRto⟩

/-- Between one and eight seconds. -/
def clamp (rto : Int) : Int := min (max rto connectionMinRto) connectionMaxRto

def next (e : Estimate) : RtoEvent → Estimate
  | .sample now sendTime =>
    let r := roundTripTime now sendTime
    let rttvar := if e.sampled then (3 * e.rttvar + |e.srtt - r|) >>> (2 : Nat) else r >>> (1 : Nat)
    let srtt := if e.sampled then (7 * e.srtt + r) >>> (3 : Nat) else r
    ⟨true, srtt, rttvar, clamp (srtt + 4 * rttvar)⟩
  | .timeOut => { e with rto := min (2 * e.rto) connectionMaxRto }

/-- Dropping `3*_RTTVAR` makes no difference to the quotient by 4. -/
def Negligible (e : Estimate) : RtoEvent → Prop
  | .sample now sendTime =>
    e.sampled = true → e.rttvar = 0 ∨ e.rttvar = 1 ∧ 4 ∣ e.srtt - roundTripTime now sendTime
  | .timeOut => True

/-- Every event of `xs` is one that makes no difference. -/
def AlwaysNegligible : Estimate → List RtoEvent → Prop
  | _, [] => True
  | e, x :: xs => e.Negligible x ∧ (e.next x).AlwaysNegligible xs

end Estimate

/-- The writer's estimator stands where the rule says. -/
structure Follows (c : Connection) (e : Estimate) : Prop where
  srtt : c.srtt = e.srtt
  rttvar : c.rttvar = e.rttvar
  rto : c.rto = e.rto
  nonneg : 0 ≤ c.rttvar

/-- It does so after each of the events. -/
def FollowsAlong : Connection → Estimate → List RtoEvent → Prop
  | c, e, [] => Follows c e
  | c, e, x :: xs => Follows c e ∧ FollowsAlong (c.refreshRTO x) (e.next x) xs

/-! ### The macros, undisturbed -/

variable {c : Connection} {e : Estimate}

theorem unlocked (status : Word) :
    ((status.testAndSet refleshRtoBit).2.testAndReset refleshRtoBit).2.bit refleshRtoBit = false := by
  simp

theorem rtoSample_status (r : Int) (c : Connection) (status : Word) :
    rtoSample r { c with status := status } = { rtoSample r c with status := status } := by
  by_cases hr : r > 0
  · simp only [rtoSample, if_pos hr]
  · simp only [rtoSample, if_neg hr]

theorem clamp_eq (x : Int) :
    (if (if x < connectionMinRto then connectionMinRto else x) > connectionMaxRto then connectionMaxRto
      else if x < connectionMinRto then connectionMinRto else x) = Estimate.clamp x := by
  simp only [Estimate.clamp, connectionMinRto, connectionMaxRto]
  split_ifs <;> omega

/-- The writer after the macro ran for a sample. -/
structure Sampled (c c' : Connection) (r : Int) : Prop where
  srtt : c'.srtt = if c.srtt = 0 then r else (7 * c.srtt + r) >>> (3 : Nat)
  rttvar : c'.rttvar = if c.srtt = 0 then r >>> (1 : Nat)
    else (if 3 * c.rttvar + c.srtt > r then c.srtt - r else r - c.srtt) >>> (2 : Nat)
  rto : c'.rto = Estimate.clamp (c'.srtt + 4 * c'.rttvar)
  free : c'.has refleshRtoBit = false

theorem sampled_refreshRTO (h : c.has refleshRtoBit = false) {now sendTime : Nat}
    (hpos : 0 < roundTripTime now sendTime) :
    Sampled c (c.refreshRTO (.sample now sendTime)) (roundTripTime now sendTime) := by
  have hwp : wp (setConnectionRTO now sendTime)
      (fun _ c' _ => Sampled c c' (roundTripTime now sendTime)) c := by
    rw [setConnectionRTO, wp_bind, wp_testAndSet (by decide), h]
    rw [wp_when, if_pos (by simp), wp_bind, wp_modify, wp_bind, wp_testAndReset (by decide), wp_pure]
    rw [rtoSample_status, ← roundTripTime, rtoSample, if_pos hpos]
    exact ⟨rfl, rfl, clamp_eq _, unlocked c.status⟩
  exact hwp

theorem refreshRTO_timeOut (h : c.has refleshRtoBit = false) :
    ∃ status, c.refreshRTO .timeOut =
      { c with rto := min (2 * c.rto) connectionMaxRto, status := status } ∧
      status.bit refleshRtoBit = false := by
  have hwp : wp setConnectionRTODouble (fun _ c' _ => ∃ status,
      c' = { c with rto := min (2 * c.rto) connectionMaxRto, status := status } ∧
      status.bit refleshRtoBit = false) c := by
    rw [setConnectionRTODouble, wp_bind, wp_testAndSet (by decide), h]
    rw [wp_when, if_pos (by simp), wp_bind, wp_modify, wp_bind, wp_testAndReset (by decide), wp_pure]
    refine ⟨_, ?_, unlocked c.status⟩
    have hmin : (if 2 * c.rto > connectionMaxRto then connectionMaxRto else 2 * c.rto) =
        min (2 * c.rto) connectionMaxRto := by
      split <;> omega
    simp only [hmin]
  exact hwp

theorem diff_eq_iff {s v r : Int} (hv : 0 ≤ v) :
    (if 3 * v + s > r then s - r else r - s) >>> (2 : Nat) = (3 * v + |s - r|) >>> (2 : Nat) ↔
      v = 0 ∨ v = 1 ∧ 4 ∣ s - r := by
  have hshift : ∀ x : Int, x >>> (2 : Nat) = x / 4 := fun x => Int.shiftRight_eq_div_pow x 2
  rw [hshift, hshift]
  rcases abs_cases (s - r) with ⟨habs, hs⟩ | ⟨habs, hs⟩ <;> rw [habs] <;> split <;> omega

/-! ### Runs -/

/-- A send of one byte. -/
def shortestSend : SendArgs :=
  ⟨[], some [0], 1, 0, .noDeleteAfterSend, none, defaultSsthreshSize, 2 ^ 20⟩

/-- A writer whose estimator is free and stands where the rule says. -/
structure Tracks (c : Connection) (e : Estimate) : Prop where
  follows : Follows c e
  free : c.has refleshRtoBit = false
  sampled : if e.sampled then 0 < c.srtt else c.srtt = 0

/-- After a sample the writer follows the rule exactly if dropping `3*_RTTVAR` made no difference. -/
theorem Tracks.sample (h : Tracks c e) {now sendTime : Nat} (hpos : 0 < roundTripTime now sendTime) :
    (Follows (c.refreshRTO (.sample now sendTime)) (e.next (.sample now sendTime)) ↔
      e.Negligible (.sample now sendTime)) ∧
    (e.Negligible (.sample now sendTime) →
      Tracks (c.refreshRTO (.sample now sendTime)) (e.next (.sample now sendTime))) := by
  have hs := sampled_refreshRTO h.free hpos
  obtain ⟨c', hc'⟩ : ∃ c', c.refreshRTO (.sample now sendTime) = c' := ⟨_, rfl⟩
  obtain ⟨r, hr⟩ : ∃ r, roundTripTime now sendTime = r := ⟨_, rfl⟩
  rw [hc', hr] at hs
  rw [hr] at hpos
  obtain ⟨hsrtt, hrttvar, -, hnonneg⟩ := h.follows
  have hsampled := h.sampled
  simp only [hc', Estimate.Negligible, hr]
  cases he : e.sampled with
  | false =>
    have hzero : c.srtt = 0 := by simpa only [he, Bool.false_eq_true, if_false] using hsampled
    have hnext : e.next (.sample now sendTime) =
        ⟨true, r, r >>> (1 : Nat), Estimate.clamp (r + (4 : Int) * (r >>> (1 : Nat)))⟩ := by
      simp only [Estimate.next, he, hr, Bool.false_eq_true, if_false]
    have hhalf : (0 : Int) ≤ r >>> (1 : Nat) := by
      rw [Int.shiftRight_eq_div_pow]
      omega
    have h1 := hs.srtt
    have h2 := hs.rttvar
    have h3 := hs.rto
    rw [if_pos hzero] at h1 h2
    rw [h1, h2] at h3
    have hfollows : Follows c' (e.next (.sample now sendTime)) := by
      rw [hnext]
      exact ⟨h1, h2, h3, h2 ▸ hhalf⟩
    refine ⟨iff_of_true hfollows fun hne => absurd hne Bool.false_ne_true,
      fun _ => ⟨hfollows, hs.free, ?_⟩⟩
    rw [hnext, h1]
    exact hpos
  | true =>
    have hpos₀ : 0 < c.srtt := by simpa only [he, if_true] using hsampled
    have h1 := hs.srtt
    have h2 := hs.rttvar
    have h3 := hs.rto
    rw [if_neg hpos₀.ne'] at h1 h2
    have hdiff := diff_eq_iff (s := c.srtt) (r := r) hnonneg
    rw [← h2] at hdiff
    have hnext : e.next (.sample now sendTime) =
      ⟨true, (7 * c.srtt + r) >>> (3 : Nat), (3 * c.rttvar + |c.srtt - r|) >>> (2 : Nat),
        Estimate.clamp ((7 * c.srtt + r) >>>
          (3 : Nat) + (4 : Int) * ((3 * c.rttvar + |c.srtt - r|) >>> (2 : Nat)))⟩ := by
      simp only [Estimate.next, he, hr, if_true, ← hsrtt, ← hrttvar]
    have hrule : (0 : Int) ≤ (3 * c.rttvar + |c.srtt - r|) >>> (2 : Nat) := by
      have := abs_nonneg (c.srtt - r)
      rw [Int.shiftRight_eq_div_pow]
      omega
    have hpos₁ : (0 : Int) < (7 * c.srtt + r) >>> (3 : Nat) := by
      rw [Int.shiftRight_eq_div_pow]
      omega
    have hfollows : Follows c' (e.next (.sample now sendTime)) ↔
        c'.rttvar = (3 * c.rttvar + |c.srtt - r|) >>> (2 : Nat) := by
      rw [hnext]
      refine ⟨fun hf => hf.rttvar, fun heq => ⟨h1, heq, ?_, heq ▸ hrule⟩⟩
      rw [h3, h1, heq]
    have hiff := hfollows.trans hdiff
    rw [hsrtt, hrttvar] at hiff
    refine ⟨hiff.trans ⟨fun hn _ => hn, fun hn => hn rfl⟩, fun hn => ⟨hiff.2 (hn rfl), hs.free, ?_⟩⟩
    rw [hnext, h1]
    exact hpos₁

theorem Tracks.timeOut (h : Tracks c e) : Tracks (c.refreshRTO .timeOut) (e.next .timeOut) := by
  obtain ⟨status, hc, hfree⟩ := refreshRTO_timeOut h.free
  rw [hc]
  refine ⟨⟨h.follows.srtt, h.follows.rttvar, ?_, h.follows.nonneg⟩, hfree, h.sampled⟩
  rw [Estimate.next, ← h.follows.rto]

theorem Tracks.along (h : Tracks c e) {xs : List RtoEvent} (hpos : ∀ x ∈ xs, x.Positive) :
    FollowsAlong c e xs ↔ e.AlwaysNegligible xs := by
  induction xs generalizing c e with
  | nil => exact iff_of_true h.follows trivial
  | cons x xs ih =>
    obtain ⟨hx, hxs⟩ := List.forall_mem_cons.1 hpos
    rw [FollowsAlong, Estimate.AlwaysNegligible, and_iff_right h.follows]
    cases x with
    | timeOut => rw [ih h.timeOut hxs, Estimate.Negligible, true_and]
    | sample now sendTime =>
      obtain ⟨hiff, htracks⟩ := h.sample hx
      constructor
      · intro hfollows
        have hn : e.Negligible (.sample now sendTime) := by
          refine hiff.1 ?_
          cases xs with
          | nil => exact hfollows
          | cons => exact hfollows.1
        exact ⟨hn, (ih (htracks hn) hxs).1 hfollows⟩
      · rintro ⟨hn, hrest⟩
        exact (ih (htracks hn) hxs).2 hrest

theorem tracks_newWriter (a : SendArgs) (id0 id1 : Nat) : Tracks (newWriter a id0 id1) .start := by
  have hbits : (newWriter a id0 id1).has refleshRtoBit = false := by
    simp only [newWriter]
    split <;> simp [construct]
  have hsrtt : (newWriter a id0 id1).srtt = 0 := by
    simp only [newWriter]
    split <;> rfl
  have hrttvar : (newWriter a id0 id1).rttvar = 0 := by
    simp only [newWriter]
    split <;> rfl
  exact ⟨⟨hsrtt, hrttvar, rfl, hrttvar.ge⟩, hbits, hsrtt⟩

/-- A new writer's estimator follows its rule exactly if dropping `3*_RTTVAR` never makes a
difference. -/
theorem followsAlong_iff (a : SendArgs) (id0 id1 : Nat) {xs : List RtoEvent}
    (hpos : ∀ x ∈ xs, x.Positive) :
    FollowsAlong (newWriter a id0 id1) .start xs ↔ Estimate.start.AlwaysNegligible xs :=
  (tracks_newWriter a id0 id1).along hpos

/-- Two samples of 1 and 5 ms and a timeout. -/
theorem followsAlong_iff_short :
    FollowsAlong (newWriter shortestSend 1 2) .start [.sample 1 0, .sample 6 1, .timeOut] :=
  (followsAlong_iff shortestSend 1 2 (by simp [RtoEvent.Positive, roundTripTime, toInt32, sub32])).2
    ⟨fun h => absurd h (by decide), fun _ => .inl (by decide +kernel), trivial, trivial⟩

/-- Two samples of 100 and 150 ms leave a negative `_RTTVAR`. -/
theorem exists_negative_rttvar : ∃ c : Connection,
    c = ((newWriter shortestSend 1 2).refreshRTO (.sample 100 0)).refreshRTO (.sample 200 50) ∧
      c.rttvar = -13 ∧
    ¬ FollowsAlong (newWriter shortestSend 1 2) .start [.sample 100 0, .sample 200 50] := by
  have hvar : (((newWriter shortestSend 1 2).refreshRTO (.sample 100 0)).refreshRTO
      (.sample 200 50)).rttvar = -13 := by
    decide +kernel
  refine ⟨_, rfl, hvar, ?_⟩
  rintro ⟨-, -, h⟩
  have := h.nonneg
  rw [hvar] at this
  exact absurd this (by decide)

end Resend.Udp
