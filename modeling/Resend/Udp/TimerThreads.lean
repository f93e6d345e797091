import Resend.Udp.TimerExpiry

/-!
# Timer threads and their events

The threads that run `do_expire`: `expire`, then `HDS_Event_Reset` and `HDS_Event_Wait` if it found
nothing. `add_timer` sets the event of one thread. A set that falls between a thread's `expire` and
its `HDS_Event_Reset` is lost; as long as that does not happen, every pending timer has a thread
that is awake or wakes up in time for it.
-/

namespace Resend.Udp

/-- Where a thread is in `do_expire`; `reading` and `sleep` are of its last `expire`. -/
inductive ThreadPc
  | expiring
  | resetting (reading sleep : Int)
  | waiting (reading sleep : Int)
  | blocked (wakeUpTime : Option Int)
deriving DecidableEq, Repr

/-- A thread and the `signal` of its event. -/
structure TimerThread where
  pc : ThreadPc
  signal : Bool
deriving DecidableEq, Repr

namespace TimerThread

/-- `HDS_Event_Set`; the broadcast lets the thread go on. -/
def eventSet (t : TimerThread) : TimerThread :=
  if t.signal then t
  else
    match t.pc with
    | .blocked _ => ⟨.expiring, true⟩
    | pc => ⟨pc, true⟩

/-- `HDS_Event_Wait` at clock reading `clock`. -/
def eventWait (t : TimerThread) (timeout clock : Int) : TimerThread :=
  if t.signal then { t with pc := .expiring }
  else if timeout = TimerWheel.infinite then { t with pc := .blocked none }
  else { t with pc := .blocked (some (clock + timeout)) }

end TimerThread

structure WheelThreads where
  wheel : TimerWheel
  now : Int
  nextNumber : Nat
  threads : Nat → TimerThread

namespace WheelThreads
open TimerWheel

inductive Act
  | addTimer (dueTime clock : Int)
  | expire (i : Nat) (clock : Int)
  | eventReset (i : Nat)
  | eventWait (i : Nat) (clock : Int)
  /-- The wait of thread `i` times out, or is interrupted. -/
  | resume (i : Nat)

def setThread (s : WheelThreads) (i : Nat) (t : TimerThread) : WheelThreads :=
  { s with threads := Function.update s.threads i t }

def step (s : WheelThreads) : Act → Option WheelThreads
  | .addTimer dueTime clock =>
    if s.now ≤ clock then
      (s.wheel.addTimer dueTime clock s.nextNumber).map fun r =>
        let s := { s with wheel := r.1, now := clock, nextNumber := s.nextNumber + 1 }
        match r.2 with
        | none => s
        | some i => s.setThread i (s.threads i).eventSet
    else none
  | .expire i clock =>
    if s.now ≤ clock ∧ i < s.wheel.threadCount ∧ (s.threads i).pc = .expiring then
      (s.wheel.expire clock).map fun r =>
        let s := { s with wheel := r.1, now := clock }
        match r.2 with
        | .node _ => s
        | .sleep t => s.setThread i { s.threads i with pc := .resetting clock t }
    else none
  | .eventReset i =>
    match (s.threads i).pc with
    | .resetting r t => some (s.setThread i ⟨.waiting r t, false⟩)
    | _ => none
  | .eventWait i clock =>
    match (s.threads i).pc with
    | .waiting _ t => if s.now ≤ clock then
      some ({ s with now := clock }.setThread i ((s.threads i).eventWait t clock)) else none
    | _ => none
  | .resume i =>
    match (s.threads i).pc with
    | .blocked _ => some (s.setThread i { s.threads i with pc := .expiring })
    | _ => none

/-- The wheel of `threadNum` threads, each about to call `expire`. -/
def start (threadNum : Nat) : WheelThreads := ⟨.new threadNum, 0, 0, fun _ => ⟨.expiring, false⟩⟩

def machine : Machine WheelThreads Act where
  init s := ∃ threadNum > 0, s = start threadNum
  step := step

/-- A wake-up time more than 1 ms after `e`. -/
def Late (e : Int) : Option Int → Prop
  | none => True
  | some t => e + 1 < t

/-- Some timer is pending, and every thread sleeps past it. -/
def LostWakeUp (s : WheelThreads) : Prop :=
  ∃ n ∈ s.wheel.pending, ∀ i < s.wheel.threadCount, ∃ wakeUpTime, s.threads i =
    ⟨.blocked wakeUpTime, false⟩ ∧ Late n.expersTime wakeUpTime

/-- What a run has to avoid: times outside the range of an `int`; an `add_timer` that wakes a thread
which is about to reset its event and to sleep past the new timer; a sleep that starts later than
the reading it was computed for and then ends too late for a pending timer or for the end of the
slot. A timer that is due at once may be put one bucket on, so that the sleep itself may have used
up the 1 ms. -/
def Careful (s : WheelThreads) : Act → Prop
  | .addTimer dueTime clock => 0 ≤ dueTime ∧ dueTime + clock < 2147483648 ∧
    ((dueTime + clock) / 65536 = s.wheel.slotCursor ∨ s.wheel.totalTimerCount = 0 →
      match (s.threads s.wheel.waitUpThreadCursor).pc with
      | .resetting reading sleep => sleep ≠ infinite ∧ reading + sleep ≤ dueTime + clock + 1
      | _ => True)
  | .expire _ clock => clock < 2147483648
  | .eventWait i clock => clock < 2147483648 ∧
    match s.threads i with
    | ⟨.waiting reading sleep, false⟩ => sleep = infinite ∨ clock = reading ∨
        clock + sleep ≤ s.wheel.slotBase + 65537 ∧ ∀ n ∈ s.wheel.pending,
        clock + sleep ≤ n.expersTime + 1
    | _ => True
  | _ => True

/-! ### Threads that are in time -/

end WheelThreads

namespace TimerThread
open TimerWheel
variable {t : TimerThread} {e e' b b' : Int}

/-- The thread is awake, or wakes up at most 1 ms after `e`. -/
def Covers (t : TimerThread) (e : Int) : Prop :=
  match t.pc with
  | .expiring => True
  | .resetting reading sleep => sleep ≠ infinite ∧ reading + sleep ≤ e + 1
  | .waiting reading sleep => t.signal = true ∨ sleep ≠ infinite ∧ reading + sleep ≤ e + 1
  | .blocked none => False
  | .blocked (some wake) => wake ≤ e + 1

/-- The thread sleeps for ever or no later than `b`, or 1 ms later once it is asleep. -/
def Within (t : TimerThread) (b : Int) : Prop :=
  match t.pc with
  | .resetting reading sleep | .waiting reading sleep => sleep = infinite ∨ reading + sleep ≤ b
  | .blocked (some wake) => wake ≤ b + 1
  | _ => True

/-- A blocked thread has not been signalled. -/
def Rests (t : TimerThread) : Prop := ∀ wake, t.pc = .blocked wake → t.signal = false

theorem Within.mono (h : t.Within b) (hb : b ≤ b') : t.Within b' := by
  obtain ⟨pc, signal⟩ := t
  rcases pc with _ | ⟨r, s⟩ | ⟨r, s⟩ | _ | wake
  · trivial
  · exact h.imp_right fun h => by omega
  · exact h.imp_right fun h => by omega
  · trivial
  · simp only [Within] at h ⊢
    omega

/-- A thread that is in time for one timer is in time for all that come after its last reading's
slot. -/
theorem Covers.far (h : t.Covers e) (hw : t.Within b) (hb : b ≤ e') : t.Covers e' := by
  obtain ⟨pc, signal⟩ := t
  rcases pc with _ | ⟨r, s⟩ | ⟨r, s⟩ | _ | wake
  · trivial
  · exact ⟨h.1, by have := hw.resolve_left h.1; omega⟩
  · exact h.imp_right fun h => ⟨h.1, by have := hw.resolve_left h.1; omega⟩
  · exact h
  · simp only [Covers, Within] at hw ⊢
    omega

theorem Covers.eventSet (h : t.Covers e) : t.eventSet.Covers e := by
  obtain ⟨pc, signal⟩ := t
  cases signal with
  | true => exact h
  | false =>
    rcases pc with _ | ⟨r, s⟩ | ⟨r, s⟩ | wake
    · trivial
    · exact h
    · exact .inl rfl
    · trivial

theorem Within.eventSet (h : t.Within b) : t.eventSet.Within b := by
  obtain ⟨pc, signal⟩ := t
  cases signal with
  | true => exact h
  | false =>
    rcases pc with _ | ⟨r, s⟩ | ⟨r, s⟩ | wake
    exacts [trivial, h, h, trivial]

theorem Rests.eventSet (h : t.Rests) : t.eventSet.Rests := by
  obtain ⟨pc, signal⟩ := t
  intro wake hwake
  cases signal with
  | true => exact h wake hwake
  | false => rcases pc with _ | ⟨r, s⟩ | ⟨r, s⟩ | wake <;> cases hwake

/-- A signal is not lost on a thread that is past its reset. -/
theorem eventSet_covers (h : t.Rests)
    (hr : ∀ r s, t.pc = .resetting r s → s ≠ infinite ∧ r + s ≤ e + 1) :
    t.eventSet.Covers e := by
  obtain ⟨pc, signal⟩ := t
  rcases pc with _ | ⟨r, s⟩ | ⟨r, s⟩ | wake
  · cases signal <;> trivial
  · cases signal <;> exact hr r s rfl
  · cases signal <;> exact .inl rfl
  · have hs : signal = false := h wake rfl
    subst hs
    trivial

theorem eventWait_covers {r s clock : Int} (hpc : t.pc = .waiting r s) (h : t.Covers e)
    (hc : t.signal = false → s = infinite ∨ clock = r ∨ clock + s ≤ e + 1) :
    (t.eventWait s clock).Covers e := by
  obtain ⟨pc, signal⟩ := t
  cases hpc
  cases signal with
  | true => trivial
  | false =>
    have hin : s ≠ infinite ∧ r + s ≤ e + 1 := h.resolve_left Bool.false_ne_true
    have hclock := (hc rfl).resolve_left hin.1
    simp only [eventWait, Bool.false_eq_true, if_false, if_neg hin.1, Covers]
    omega

theorem eventWait_within {r s clock : Int} (hpc : t.pc = .waiting r s) (h : t.Within b)
    (hc : t.signal = false → s = infinite ∨ clock = r ∨ clock + s ≤ b + 1) :
    (t.eventWait s clock).Within b ∧ (t.eventWait s clock).Rests := by
  obtain ⟨pc, signal⟩ := t
  cases hpc
  cases signal with
  | true => exact ⟨trivial, fun wake hwake => by cases hwake⟩
  | false =>
    by_cases hs : s = infinite
    · simp only [eventWait, Bool.false_eq_true, if_false, if_pos hs]
      exact ⟨trivial, fun _ _ => rfl⟩
    · have hclock := (hc rfl).resolve_left hs
      have hb : r + s ≤ b := h.resolve_left hs
      simp only [eventWait, Bool.false_eq_true, if_false, if_neg hs]
      exact ⟨by simp only [Within]; omega, fun _ _ => rfl⟩

end TimerThread

namespace WheelThreads
open TimerWheel

/-! ### The invariant -/

/-- Every pending timer has a thread that is in time for it. -/
structure Inv (s : WheelThreads) : Prop where
  ok : Ok s.wheel s.now
  turn : s.wheel.waitUpThreadCursor < s.wheel.threadCount
  within : ∀ i, (s.threads i).Within (s.wheel.slotBase + 65536)
  rests : ∀ i, (s.threads i).Rests
  covered : ∀ n ∈ s.wheel.pending, ∃ i < s.wheel.threadCount, (s.threads i).Covers n.expersTime

variable {s s' : WheelThreads}

theorem Inv.setThread (h : Inv s) {i : Nat} {t : TimerThread} {clock : Int} (hle : s.now ≤ clock)
    (hlt : clock < 2147483648) (hw : t.Within (s.wheel.slotBase + 65536)) (hr : t.Rests)
    (hc : ∀ n ∈ s.wheel.pending, (s.threads i).Covers n.expersTime → t.Covers n.expersTime) :
    Inv ({ s with now := clock }.setThread i t) := by
  refine ⟨h.ok.later hle hlt, h.turn, fun j => ?_, fun j => ?_, fun n hn => ?_⟩
  · by_cases hj : j = i
    · subst hj; simp only [WheelThreads.setThread, Function.update_self]; exact hw
    · simp only [WheelThreads.setThread, Function.update_of_ne hj]; exact h.within j
  · by_cases hj : j = i
    · subst hj; simp only [WheelThreads.setThread, Function.update_self]; exact hr
    · simp only [WheelThreads.setThread, Function.update_of_ne hj]; exact h.rests j
  · obtain ⟨j, hj, hcov⟩ := h.covered n hn
    refine ⟨j, hj, ?_⟩
    by_cases hj : j = i
    · subst hj; simp only [WheelThreads.setThread, Function.update_self]; exact hc n hn hcov
    · simp only [WheelThreads.setThread, Function.update_of_ne hj]; exact hcov

theorem Inv.addTimer (h : Inv s) {dueTime clock : Int} (hc : s.Careful (.addTimer dueTime clock))
    (hs : s.step (.addTimer dueTime clock) = some s') : Inv s' := by
  obtain ⟨h0, hfits, hlate⟩ := hc
  simp only [step, Option.ite_none_right_eq_some] at hs
  obtain ⟨hle, hs⟩ := hs
  obtain ⟨⟨w', thread⟩, hadd, hs⟩ := Option.map_eq_some_iff.1 hs
  have hdue : dueTime ≤ 0x0fffffff := by
    by_contra hgt
    rw [TimerWheel.addTimer, if_pos (by omega)] at hadd
    cases hadd
  have hok := h.ok.later hle (by omega)
  obtain ⟨w'', thread', hadd', hok', hpending⟩ := addTimer_spec hok h0 hdue hfits s.nextNumber
  obtain ⟨rfl, rfl⟩ : w' = w'' ∧ thread = thread' := by
    rwa [hadd, Option.some.injEq, Prod.mk.injEq] at hadd'
  obtain ⟨hwakes, hthreads, hbase⟩ := addTimer_wakes hok h0 hfits hadd
  cases thread with
  | none =>
    obtain ⟨hturn, htotal, hfar⟩ := hwakes
    subst hs
    refine ⟨hok', ?_, fun i => ?_, h.rests, fun n hn => ?_⟩
    · simp only [hturn, hthreads]; exact h.turn
    · simp only [hbase]; exact h.within i
    · simp only [hpending, Multiset.mem_cons] at hn
      simp only [hthreads]
      rcases hn with rfl | hn
      · -- the new timer lies behind the pending ones, and a thread sleeps no longer than its slot
        have hne : s.wheel.pending ≠ 0 := by
          intro hz
          have := h.ok.total
          rw [hz, Multiset.card_zero] at this
          exact htotal this
        obtain ⟨n₀, hn₀⟩ := Multiset.exists_mem_of_ne_zero hne
        obtain ⟨i, hi, hcov⟩ := h.covered n₀ hn₀
        exact ⟨i, hi, hcov.far (h.within i) hfar⟩
      · exact h.covered n hn
  | some i =>
    obtain ⟨rfl, hturn, hsignal⟩ := hwakes
    subst hs
    refine ⟨hok', ?_, fun j => ?_, fun j => ?_, fun n hn => ?_⟩
    · have := h.turn
      simp only [WheelThreads.setThread, hturn, hthreads]
      split <;> omega
    · simp only [WheelThreads.setThread, hbase]
      by_cases hj : j = s.wheel.waitUpThreadCursor
      · subst hj; simp only [Function.update_self]; exact (h.within _).eventSet
      · simp only [Function.update_of_ne hj]; exact h.within j
    · simp only [WheelThreads.setThread]
      by_cases hj : j = s.wheel.waitUpThreadCursor
      · subst hj; simp only [Function.update_self]; exact (h.rests _).eventSet
      · simp only [Function.update_of_ne hj]; exact h.rests j
    · simp only [WheelThreads.setThread, hpending, Multiset.mem_cons] at hn
      simp only [WheelThreads.setThread, hthreads]
      rcases hn with rfl | hn
      · refine ⟨_, h.turn, ?_⟩
        simp only [Function.update_self]
        refine TimerThread.eventSet_covers (h.rests _) fun reading sleep hpc => ?_
        have := hlate hsignal
        rwa [hpc] at this
      · obtain ⟨j, hj, hcov⟩ := h.covered n hn
        refine ⟨j, hj, ?_⟩
        by_cases hj : j = s.wheel.waitUpThreadCursor
        · subst hj; simp only [Function.update_self]; exact hcov.eventSet
        · simp only [Function.update_of_ne hj]; exact hcov

theorem Inv.expire (h : Inv s) {i : Nat} {clock : Int} (hc : s.Careful (.expire i clock))
    (hs : s.step (.expire i clock) = some s') : Inv s' := by
  simp only [step, Option.ite_none_right_eq_some] at hs
  obtain ⟨⟨hle, hi, hpc⟩, hs⟩ := hs
  obtain ⟨w', res, heq, hok, hans⟩ := expire_spec (h.ok.later hle hc)
  have hturned := turned_expire heq
  have hbase : s.wheel.slotBase + 65536 ≤ w'.slotBase + 65536 := by
    have := hturned.slot
    simp only [slotBase]
    omega
  rw [heq, Option.map_some, Option.some.injEq] at hs
  have hturn : w'.waitUpThreadCursor < w'.threadCount := by
    rw [hturned.turn, hturned.threads]; exact h.turn
  cases res with
  | node n =>
    obtain ⟨hpending, -⟩ := hans
    subst hs
    refine ⟨hok, hturn, fun j => (h.within j).mono hbase, h.rests, fun m hm => ?_⟩
    simp only [hturned.threads]
    exact h.covered m (by rw [hpending]; exact Multiset.mem_cons_of_mem hm)
  | sleep t =>
    obtain ⟨hpending, -, hsleep⟩ := hans
    subst hs
    refine ⟨hok, hturn, fun j => ?_, fun j => ?_, fun m hm => ?_⟩
    · simp only [WheelThreads.setThread]
      by_cases hj : j = i
      · subst hj
        simp only [Function.update_self]
        exact hsleep.imp And.left fun hsleep => hsleep.2.1
      · simp only [Function.update_of_ne hj]
        exact (h.within j).mono hbase
    · simp only [WheelThreads.setThread]
      by_cases hj : j = i
      · subst hj
        simp only [Function.update_self]
        intro wake hwake
        cases hwake
      · simp only [Function.update_of_ne hj]
        exact h.rests j
    · -- the thread sleeps no longer than to the first bucket that holds a timer
      refine ⟨i, by rw [← hturned.threads] at hi; exact hi, ?_⟩
      simp only [WheelThreads.setThread, Function.update_self]
      rcases hsleep with ⟨-, hzero⟩ | ⟨hpos, -, hbefore⟩
      · simp only [WheelThreads.setThread, hpending, hzero, Multiset.notMem_zero] at hm
      · refine ⟨by rw [infinite]; omega, ?_⟩
        rcases hok.mem_pending.1 hm with ⟨b, hb⟩ | ⟨k, hk⟩
        · have h1 := hbefore.near b m hb
          obtain ⟨-, -, -, -, h2⟩ := hok.near b m hb
          omega
        · have := hbefore.far k m hk
          omega

theorem Inv.step (h : Inv s) {act : Act} (hc : s.Careful act) (hs : s.step act = some s') : Inv s' := by
  cases act with
  | addTimer dueTime clock => exact h.addTimer hc hs
  | expire i clock => exact h.expire hc hs
  | eventReset i =>
    simp only [WheelThreads.step] at hs
    split at hs <;> cases hs
    rename_i r t hpc
    have hin := h.within i
    refine h.setThread le_rfl h.ok.nowLt ?_ (fun wake hwake => by cases hwake) fun n _ hcov => ?_
    · simp only [TimerThread.Within, hpc] at hin ⊢
      exact hin
    · simp only [TimerThread.Covers, hpc] at hcov
      exact .inr hcov
  | eventWait i clock =>
    simp only [WheelThreads.step] at hs
    split at hs
    · rename_i r t hpc
      simp only [Option.ite_none_right_eq_some, Option.some.injEq] at hs
      obtain ⟨hle, rfl⟩ := hs
      have hclock : (s.threads i).signal = false → t = infinite ∨ clock = r ∨
          clock + t ≤ s.wheel.slotBase + 65537 ∧ ∀ n ∈ s.wheel.pending,
          clock + t ≤ n.expersTime + 1 := by
        intro hsignal
        have hthread : s.threads i = ⟨.waiting r t, false⟩ := by rw [← hpc, ← hsignal]
        have := hc.2
        rwa [hthread] at this
      obtain ⟨hin, hrest⟩ := TimerThread.eventWait_within hpc (h.within i) fun hsignal =>
        (hclock hsignal).imp_right (Or.imp_right fun hends => by have := hends.1; omega)
      exact h.setThread hle hc.1 hin hrest fun n hn hcov =>
        TimerThread.eventWait_covers hpc hcov fun hsignal =>
        (hclock hsignal).imp_right (Or.imp_right fun hends => hends.2 n hn)
    · cases hs
  | resume i =>
    simp only [WheelThreads.step] at hs
    split at hs <;> cases hs
    exact h.setThread le_rfl h.ok.nowLt trivial (fun wake hwake => by cases hwake) fun _ _ _ => trivial

/-- In every run that keeps to `Careful`, no wake-up is lost. -/
theorem noLostWakeUp_of_careful (h : machine.ReachUnder Careful s) : ¬ s.LostWakeUp := by
  have hI : Inv s := by
    refine h.invariant ?_ fun s act s' hI hc hs => hI.step hc hs
    rintro s ⟨threadNum, hpos, rfl⟩
    refine ⟨new_ok threadNum, hpos, fun _ => trivial,
      fun _ wake hwake => (by cases hwake), fun n hn => ?_⟩
    exact ⟨0, hpos, trivial⟩
  rintro ⟨n, hn, hlate⟩
  obtain ⟨i, hi, hcov⟩ := hI.covered n hn
  obtain ⟨wake, hthread, hwake⟩ := hlate i hi
  rw [hthread] at hcov
  cases wake with
  | none => exact hcov
  | some t => exact absurd hwake (not_lt.2 hcov)

instance (s : WheelThreads) : (act : Act) → Decidable (s.Careful act)
  | .addTimer dueTime clock => by
    unfold Careful
    refine @instDecidableAnd _ _ _ (@instDecidableAnd _ _ _ (@instDecidableForall _ _ _ ?_))
    split <;> infer_instance
  | .expire _ clock => inferInstanceAs (Decidable (clock < 2147483648))
  | .eventWait i clock => by
    unfold Careful
    refine @instDecidableAnd _ _ _ ?_
    split <;> infer_instance
  | .eventReset _ | .resume _ => inferInstanceAs (Decidable True)

/-- Two threads: a timer is added while the second one, which found nothing, is about to reset its
event. -/
theorem noLostWakeUp_of_careful_two : ∃ s, machine.ReachUnder Careful s ∧
    s.threads 0 = ⟨.blocked (some 20), false⟩ ∧
      s.threads 1 = ⟨.blocked none, false⟩ ∧ ¬ s.LostWakeUp := by
  have hrun :
      ((machine.runUnder Careful (start 2) [.expire 0 0, .eventReset 0, .eventWait 0 0, .expire 1 0,
        .addTimer 20 0, .eventReset 1, .eventWait 1 0, .expire 0 0, .eventReset 0,
        .eventWait 0 0]).map fun s =>
      (s.threads 0, s.threads 1)) = some (⟨.blocked (some 20), false⟩,
        ⟨.blocked none, false⟩) := by decide +kernel
  obtain ⟨s, hs, heq⟩ := Option.map_eq_some_iff.1 hrun
  rw [Prod.mk.injEq] at heq
  have hreach : machine.ReachUnder Careful s :=
    Machine.ReachUnder.run (M := machine) (.init ⟨2, Nat.two_pos, rfl⟩) hs
  exact ⟨s, hreach, heq.1, heq.2, noLostWakeUp_of_careful hreach⟩

/-- One thread; its event is set between its `expire` and its `HDS_Event_Reset`, and it sleeps for
ever. -/
theorem exists_lostWakeUp : ∃ s, machine.Reach s ∧ s.LostWakeUp := by
  have hrun : ((machine.run (start 1) [.expire 0 0, .addTimer 100 0, .eventReset 0,
    .eventWait 0 0]).map fun s =>
      (s.wheel.nearlyArray 100, s.wheel.threadCount, s.threads 0)) =
        some ([⟨100, 0⟩], 1, ⟨.blocked none, false⟩) := by
    decide +kernel
  obtain ⟨s, hs, heq⟩ := Option.map_eq_some_iff.1 hrun
  simp only [Prod.mk.injEq] at heq
  obtain ⟨hbucket, hcount, hthread⟩ := heq
  refine ⟨s, Machine.ReachUnder.run (M := machine) (.init ⟨1, Nat.one_pos, rfl⟩) hs,
    ⟨100, 0⟩, ?_, fun i hi => ?_⟩
  · rw [pending, Multiset.mem_add, Buckets.mem_content]
    exact .inl ⟨100, by omega, by rw [hbucket]; exact List.mem_singleton_self _⟩
  · obtain rfl : i = 0 := by omega
    exact ⟨none, hthread, trivial⟩

end WheelThreads

end Resend.Udp
