import Resend.Socks.WriteQueue

/-!
# One call of `write_cb`

The loop over `write_queue` has three exits: the queue is empty, the socket takes part of a buffer,
the socket fails. What the socket took and what is left in the queue add up at each of them. The
exit after a failure keeps `queue_lock`.
-/

namespace Resend.Socks

/-- `::send` of `data`, where the socket is ready to take what `w` says. -/
def Written.accept (w : Written) (data : List UInt8) : Option Nat :=
  match w with
  | .bytes n => some (min n data.length)
  | .again | .failed => none

def Buffer.unsent (b : Buffer) : List UInt8 := b.data.drop b.wroteLen

namespace Outgoing

/-- `while (!write_queue.empty())` and what follows it; `r` are the results of the calls of `::send`
in turn. -/
def drainQueue (s : Outgoing) : List Buffer → (Nat → Written) → Outgoing
  | [], _ => { s with writeQueue := [], queueLocked := false, watching := false, isWriteable := true }
  | b :: rest, r =>
    match (r 0).accept b.unsent with
    | none => { s with writeQueue := b :: rest }
    | some n =>
      let accepted := s.accepted ++ b.unsent.take n
      if b.wroteLen + n ≠ b.data.length then
        { s with
          accepted := accepted
          writeQueue := { b with wroteLen := b.wroteLen + n } :: rest
          queueLocked := false }
      else drainQueue { s with accepted := accepted } rest fun i => r (i + 1)

/-- `write_cb`; while another call has `queue_lock` it does not return. -/
def writeCb (s : Outgoing) (r : Nat → Written) : Option Outgoing :=
  if s.queueLocked then none else some ({ s with queueLocked := true }.drainQueue s.writeQueue r)

/-- The bytes are conserved from `s` to `s'`, and the lock is free again. -/
structure Conserved (s s' : Outgoing) : Prop where
  bytes : ∃ taken, s'.accepted = s.accepted ++ taken ∧
    taken ++ queued s'.writeQueue = queued s.writeQueue
  released : s'.queueLocked = false

/-- Some result is an error, and the socket took the whole rest of every buffer before it. -/
def Fails : List Buffer → (Nat → Written) → Prop
  | [], _ => False
  | b :: rest, r =>
    match (r 0).accept b.unsent with
    | none => True
    | some n => b.wroteLen + n = b.data.length ∧ Fails rest fun i => r (i + 1)

section call
variable {s s' : Outgoing} {q : List Buffer} {b : Buffer} {r : Nat → Written} {n : Nat}

theorem queued_cons (b : Buffer) (q : List Buffer) : queued (b :: q) = b.unsent ++ queued q := rfl

theorem unsent_wrote (b : Buffer) (n : Nat) :
    b.unsent.take n ++ ({ b with wroteLen := b.wroteLen + n } : Buffer).unsent = b.unsent := by
  unfold Buffer.unsent
  rw [← List.drop_drop, List.take_append_drop]

theorem drainQueue_bytes (s : Outgoing) (q : List Buffer) (r : Nat → Written) :
    ∃ taken, (s.drainQueue q r).accepted = s.accepted ++ taken ∧
      taken ++ queued (s.drainQueue q r).writeQueue = queued q := by
  induction q generalizing s r with
  | nil => exact ⟨[], (List.append_nil _).symm, rfl⟩
  | cons b rest ih =>
    unfold drainQueue
    cases (r 0).accept b.unsent with
    | none => exact ⟨[], (List.append_nil _).symm, rfl⟩
    | some n =>
      have hrest := unsent_wrote b n
      dsimp only
      split
      · refine ⟨b.unsent.take n, rfl, ?_⟩
        rw [queued_cons, queued_cons, ← List.append_assoc, hrest]
      · rename_i hfull
        have hall : ({ b with wroteLen := b.wroteLen + n } : Buffer).unsent = [] :=
          List.drop_of_length_le (Nat.le_of_eq (not_ne_iff.1 hfull).symm)
        obtain ⟨taken, haccepted, hqueued⟩ :=
            ih { s with accepted := s.accepted ++ b.unsent.take n } fun i => r (i + 1)
        refine ⟨b.unsent.take n ++ taken, ?_, ?_⟩
        · rw [haccepted, List.append_assoc]
        · rw [List.append_assoc, hqueued, queued_cons]
          rw [hall, List.append_nil] at hrest
          rw [hrest]

theorem queueLocked_drainQueue (s : Outgoing) (hs : s.queueLocked = true) (q : List Buffer)
    (r : Nat → Written) :
    (s.drainQueue q r).queueLocked = false ↔ ¬ Fails q r := by
  induction q generalizing s r with
  | nil => exact ⟨fun _ => id, fun _ => rfl⟩
  | cons b rest ih =>
    unfold drainQueue Fails
    cases (r 0).accept b.unsent with
    | none => simp [hs]
    | some n =>
      dsimp only
      by_cases hfull : b.wroteLen + n = b.data.length
      · rw [if_neg (not_ne_iff.2 hfull)]
        exact (ih { s with accepted := s.accepted ++ b.unsent.take n } hs _).trans
          (not_congr (and_iff_right hfull).symm)
      · rw [if_pos hfull]
        exact ⟨fun _ h => hfull h.1, fun _ => rfl⟩

/-- A call of `write_cb` conserves the bytes and releases the lock unless the socket fails in it. -/
theorem conserved_iff (hs : s.queueLocked = false) :
    ∃ s', s.writeCb r = some s' ∧ (Conserved s s' ↔ ¬ Fails s.writeQueue r) := by
  refine ⟨_, if_neg (by rw [hs]; decide), ?_⟩
  have hlock := queueLocked_drainQueue { s with queueLocked := true } rfl s.writeQueue r
  refine ⟨fun h => hlock.1 h.released, fun h => ⟨?_, hlock.2 h⟩⟩
  exact drainQueue_bytes { s with queueLocked := true } s.writeQueue r

/-- The socket takes one buffer and part of the next. -/
theorem conserved_iff_short :
    ∃ s', ({ new with writeQueue := [⟨[1, 2], 1⟩, ⟨[3, 4], 0⟩] } : Outgoing).writeCb
      (fun _ => .bytes 1) = some s' ∧
      Conserved { new with writeQueue := [⟨[1, 2], 1⟩, ⟨[3, 4], 0⟩] } s' := by
  obtain ⟨s', hs, h⟩ := conserved_iff (s := { new with writeQueue := [⟨[1, 2], 1⟩, ⟨[3, 4], 0⟩] })
    (r := fun _ => .bytes 1) rfl
  exact ⟨s', hs, h.2 (by simp [Fails, Written.accept, Buffer.unsent])⟩

/-- The first call of `::send` fails. -/
theorem exists_kept_lock : ¬ ∀ (s : Outgoing) (r : Nat → Written), s.queueLocked = false →
    ∃ s', s.writeCb r = some s' ∧ Conserved s s' := by
  intro h
  obtain ⟨s', hs, hc⟩ := h { new with writeQueue := [⟨[1], 0⟩] } (fun _ => .failed) rfl
  cases hs
  exact absurd hc.released (by decide)

/-! ### The call in a run of both threads -/

theorem run_cons {act : Act} {as : List Act} (hs : s.step act = some s') :
    machine.run s (act :: as) = machine.run s' as := by
  show (if True then (s.step act).bind _ else none) = _
  rw [if_pos trivial, hs]
  rfl

theorem step_loop (hlive : s.deleted = false) (w : Written) : s.step (.loop w) = s.stepLoop w := by
  unfold Outgoing.step
  rw [if_neg (by rw [hlive]; decide)]

theorem stepLoop_failed (hloop : s.loop = .drain) (hq : s.writeQueue = b :: q) {w : Written}
    (hw : w.accept b.unsent = none) : s.stepLoop w = some { s with loop := .idle } := by
  unfold Outgoing.stepLoop
  rw [hloop]
  dsimp only
  rw [hq]
  cases w with
  | bytes k => cases hw
  | again => rfl
  | failed => rfl

theorem stepLoop_bytes (hloop : s.loop = .drain) (hq : s.writeQueue = b :: q)
    (hn : n ≤ b.unsent.length) :
    s.stepLoop (.bytes n) = some (if b.wroteLen + n ≠ b.data.length then
      { s with
        accepted := s.accepted ++ b.unsent.take n
        writeQueue := { b with wroteLen := b.wroteLen + n } :: q
        queueLocked := false
        loop := .idle }
      else { s with accepted := s.accepted ++ b.unsent.take n, writeQueue := q }) := by
  have hlen : ¬ b.data.length - b.wroteLen < n := by
    rw [Buffer.unsent, List.length_drop] at hn
    omega
  unfold Outgoing.stepLoop
  rw [hloop]
  dsimp only
  rw [hq]
  dsimp only
  rw [if_neg hlen]
  split <;> rfl

/-- The loop gets the queue as its argument, and does not look at where the event loop is. -/
theorem drainQueue_congr (s : Outgoing) (q₀ q : List Buffer) (l l' : LoopPc) (r : Nat → Written) :
    { { s with writeQueue := q₀, loop := l }.drainQueue q r with loop := l' } =
      { s.drainQueue q r with loop := l' } := by
  induction q generalizing s r with
  | nil => rfl
  | cons b rest ih =>
    unfold drainQueue
    show Outgoing.mk .. = Outgoing.mk ..
    cases (r 0).accept b.unsent with
    | none => rfl
    | some n =>
      dsimp only
      split
      · rfl
      · exact ih { s with accepted := s.accepted ++ b.unsent.take n } _

theorem loop_drainQueue (s : Outgoing) (q : List Buffer) (r : Nat → Written) :
    (s.drainQueue q r).loop = s.loop := by
  induction q generalizing s r with
  | nil => rfl
  | cons b rest ih =>
    unfold drainQueue
    cases (r 0).accept b.unsent with
    | none => rfl
    | some n =>
      dsimp only
      split
      · rfl
      · exact ih _ _

theorem exists_run_drainQueue (hloop : s.loop = .drain) (hlive : s.deleted = false)
    (hq : s.writeQueue = q) (r : Nat → Written) :
    ∃ as, machine.run s as = some { s.drainQueue q r with loop := .idle } := by
  induction q generalizing s r with
  | nil =>
    refine ⟨[.loop .again, .loop .again, .loop .again], ?_⟩
    simp [Machine.run, Machine.runUnder, machine, Outgoing.step, Outgoing.stepLoop,
      drainQueue, hloop, hlive, hq]
  | cons b rest ih =>
    unfold drainQueue
    cases hw : (r 0).accept b.unsent with
    | none =>
      refine ⟨[.loop (r 0)],
        (run_cons ((step_loop hlive _).trans (stepLoop_failed hloop hq hw))).trans ?_⟩
      rw [← hq]
      rfl
    | some n =>
      have hn : n ≤ b.unsent.length := by
        cases hr : r 0 with
        | bytes k => rw [hr] at hw; cases hw; exact Nat.min_le_right ..
        | again => rw [hr] at hw; cases hw
        | failed => rw [hr] at hw; cases hw
      have hstep := (step_loop hlive _).trans (stepLoop_bytes hloop hq hn)
      dsimp only
      by_cases hfull : b.wroteLen + n = b.data.length
      · rw [if_neg (not_ne_iff.2 hfull)] at hstep ⊢
        obtain ⟨as, has⟩ :=
            ih (s := { s with accepted := s.accepted ++ b.unsent.take n, writeQueue := rest })
              hloop hlive rfl
          fun i => r (i + 1)
        refine ⟨_ :: as, (run_cons hstep).trans (has.trans (congrArg some ?_))⟩
        exact drainQueue_congr { s with accepted := s.accepted ++ b.unsent.take n } rest rest
          s.loop .idle _
      · rw [if_pos hfull] at hstep ⊢
        exact ⟨[_], run_cons hstep⟩

/-- A call of `write_cb` is a run of the event loop that no step of `send` falls into. -/
theorem exists_run_writeCb (hidle : s.loop = .idle) (hlive : s.deleted = false)
    (hwatch : s.watching = true) (hs : s.writeCb r = some s') :
    ∃ as, machine.run s as = some s' := by
  unfold writeCb at hs
  split at hs
  · cases hs
  rename_i hfree
  cases hs
  have hcall : s.step .writeCb = some { s with loop := .lock } := by
    unfold Outgoing.step
    rw [if_neg (by rw [hlive]; decide)]
    exact if_pos ⟨hidle, hwatch⟩
  have hlock : ({ s with loop := .lock } : Outgoing).step (.loop .again) =
      some { s with queueLocked := true, loop := .drain } := by
    rw [step_loop (s := { s with loop := .lock }) hlive]
    exact if_neg hfree
  obtain ⟨as, has⟩ := exists_run_drainQueue
      (s := { s with queueLocked := true, loop := .drain }) rfl hlive rfl r
  refine ⟨_, (run_cons hcall).trans ((run_cons hlock).trans (has.trans (congrArg some ?_)))⟩
  rw [drainQueue_congr { s with queueLocked := true } s.writeQueue s.writeQueue .drain .idle r]
  have hloop := (loop_drainQueue { s with queueLocked := true } s.writeQueue r).trans hidle
  generalize ({ s with queueLocked := true } : Outgoing).drainQueue s.writeQueue r = e at hloop
  cases e
  cases hloop
  rfl

theorem stuck_step (hlocked : s.queueLocked = true) (hloop : s.loop = .idle ∨ s.loop = .lock)
    {act : Act} (hs : s.step act = some s') :
    s'.queueLocked = true ∧ (s'.loop = .idle ∨ s'.loop = .lock) ∧ s'.writeQueue = s.writeQueue := by
  unfold Outgoing.step at hs
  split at hs
  · cases hs
  cases act with
  | send data =>
    dsimp only at hs
    split at hs <;> cases hs
    exact ⟨hlocked, hloop, rfl⟩
  | writeCb =>
    dsimp only at hs
    split at hs <;> cases hs
    exact ⟨hlocked, .inr rfl, rfl⟩
  | loop w =>
    rcases hloop with hl | hl <;> simp [Outgoing.stepLoop, hl, hlocked] at hs
  | sender w =>
    have hkept : s'.queueLocked = true ∧ s'.loop = s.loop ∧ s'.writeQueue = s.writeQueue := by
      cases hsend : s.sender <;> simp only [Outgoing.stepSender, hsend, hlocked, if_true,
        reduceCtorEq, Option.some.injEq] at hs
      case write data =>
        cases w with
        | bytes n =>
          dsimp only at hs
          split at hs <;> cases hs
          exact ⟨rfl, rfl, rfl⟩
        | again | failed =>
          cases hs
          exact ⟨rfl, rfl, rfl⟩
      all_goals subst hs; exact ⟨rfl, rfl, rfl⟩
    exact ⟨hkept.1, hkept.2.1 ▸ hloop, hkept.2.2⟩

/-- After a failure nobody gets the lock any more, and the queue stays as it is. -/
theorem stuck_run (hlocked : s.queueLocked = true) (hloop : s.loop = .idle ∨ s.loop = .lock)
    {as : List Act} (hs : machine.run s as = some s') :
    s'.queueLocked = true ∧ s'.writeQueue = s.writeQueue := by
  induction as generalizing s with
  | nil =>
    cases hs
    exact ⟨hlocked, rfl⟩
  | cons act as ih =>
    obtain ⟨s₁, h₁, hs⟩ := Option.bind_eq_some_iff.1
      (by rwa [Machine.run, Machine.runUnder, if_pos trivial] at hs)
    obtain ⟨hlocked₁, hloop₁, hqueue⟩ := stuck_step hlocked hloop h₁
    obtain ⟨hlocked', hqueue'⟩ := ih hlocked₁ hloop₁ hs
    exact ⟨hlocked', hqueue'.trans hqueue⟩

end call

end Outgoing

end Resend.Socks
