import Resend.Lib.Machine

/-!
# The writing half of a `TCPHandler`

`send` runs on the protocol thread, `write_cb` on the event loop. The flag `is_writeable`, the queue
and the watcher are three things under two locks: `send` reads the flag, and only later appends to
the queue. Each thread is cut at its socket writes and its locked sections. The bytes stay in order
as long as nothing is appended behind the back of a `write_cb` that has already found the queue
empty (`Timely`).
-/

namespace Resend.Socks

structure Buffer where
  data : List UInt8
  wroteLen : Nat
deriving DecidableEq

/-- What `::send` returns: how many bytes it took, `EAGAIN`, or another error. -/
inductive Written
  | bytes (n : Nat)
  | again
  | failed
deriving DecidableEq

/-- Where the protocol thread is. -/
inductive SendPc
  | idle
  | readFlag (data : List UInt8)
  | write (data : List UInt8)
  | clearFlag (data : List UInt8)
  | addQueue (data : List UInt8)
  | startWatcher
  | append (data : List UInt8)
deriving DecidableEq

/-- What the protocol thread has still to place. -/
def SendPc.rest : SendPc → List UInt8
  | .readFlag data | .write data | .clearFlag data | .addQueue data | .append data => data
  | .idle | .startWatcher => []

/-- Where the event loop is. -/
inductive LoopPc
  | idle
  | lock
  | drain
  | stopWatcher
  | setFlag
deriving DecidableEq

/-- `called` are the arguments of all calls of `send`, `accepted` the bytes the socket took. -/
structure Outgoing where
  isWriteable : Bool
  writeQueue : List Buffer
  queueLocked : Bool
  watching : Bool
  deleted : Bool
  sender : SendPc
  loop : LoopPc
  called : List UInt8
  accepted : List UInt8

namespace Outgoing

inductive Act
  | send (data : List UInt8)
  | sender (w : Written)
  | writeCb
  | loop (w : Written)

/-- The next part of `send`. -/
def stepSender (s : Outgoing) (w : Written) : Option Outgoing :=
  match s.sender with
  | .idle => none
  | .readFlag data => some { s with sender := if s.isWriteable then .write data else .append data }
  | .write data =>
    match w with
    | .bytes n =>
      if data.length < n then none
      else some { s with
        accepted := s.accepted ++ data.take n
        sender := if n < data.length then .clearFlag (data.drop n) else .idle }
    | .again => some { s with sender := .clearFlag data }
    | .failed => some { s with deleted := true }
  | .clearFlag data => some { s with isWriteable := false, sender := .addQueue data }
  | .addQueue data =>
    if s.queueLocked then none
    else some { s with writeQueue := s.writeQueue ++ [⟨data, 0⟩], sender := .startWatcher }
  | .startWatcher => some { s with watching := true, sender := .idle }
  | .append data =>
    if s.queueLocked then none else
      some { s with writeQueue := s.writeQueue ++ [⟨data, 0⟩], sender := .idle }

/-- The next part of `write_cb`. After an error it returns with `queue_lock` held. -/
def stepLoop (s : Outgoing) (w : Written) : Option Outgoing :=
  match s.loop with
  | .idle => none
  | .lock => if s.queueLocked then none else some { s with queueLocked := true, loop := .drain }
  | .drain =>
    match s.writeQueue with
    | [] => some { s with queueLocked := false, loop := .stopWatcher }
    | b :: rest =>
      match w with
      | .bytes n =>
        if b.data.length - b.wroteLen < n then none
        else
          let accepted := s.accepted ++ (b.data.drop b.wroteLen).take n
          if b.wroteLen + n ≠ b.data.length then
            some { s with
              accepted := accepted
              writeQueue := { b with wroteLen := b.wroteLen + n } :: rest
              queueLocked := false
              loop := .idle }
          else some { s with accepted := accepted, writeQueue := rest }
      | .again | .failed => some { s with loop := .idle }
  | .stopWatcher => some { s with watching := false, loop := .setFlag }
  | .setFlag => some { s with isWriteable := true, loop := .idle }

def step (s : Outgoing) (act : Act) : Option Outgoing :=
  if s.deleted then none
  else match act with
    | .send data =>
      if s.sender = .idle then some { s with sender := .readFlag data, called := s.called ++ data }
      else none
    | .sender w => s.stepSender w
    | .writeCb => if s.loop = .idle ∧ s.watching = true then some { s with loop := .lock } else none
    | .loop w => s.stepLoop w

/-- A new handler. -/
def new : Outgoing := ⟨true, [], false, false, false, .idle, .idle, [], []⟩

def machine : Machine Outgoing Act where
  init s := s = new
  step := step

/-- The socket gets the bytes in order, and nothing waits in the queue without a watcher. -/
structure Ordered (s : Outgoing) : Prop where
  prefixOf : s.accepted <+: s.called
  waited : s.sender = .idle → s.loop = .idle → s.writeQueue ≠ [] →
    s.isWriteable = false ∧ s.watching = true

/-- `send` appends only while the flag is still clear and no `write_cb` is on its way to set it. -/
def Timely (s : Outgoing) : Act → Prop
  | .sender _ =>
    match s.sender with
    | .append _ => s.isWriteable = false ∧ s.loop ≠ .stopWatcher ∧ s.loop ≠ .setFlag
    | _ => True
  | _ => True

instance (s : Outgoing) : (act : Act) → Decidable (s.Timely act)
  | .sender _ => match h : s.sender with
    | .append _ => decidable_of_iff (s.isWriteable = false ∧ s.loop ≠ .stopWatcher ∧ s.loop ≠ .setFlag)
        (by simp [Timely, h])
    | .idle | .readFlag _ | .write _ | .clearFlag _ | .addQueue _ | .startWatcher =>
      .isTrue (by simp [Timely, h])
  | .send _ | .writeCb | .loop _ => inferInstanceAs (Decidable True)

/-! ### The invariant -/

/-- What the queue still holds. -/
def queued (q : List Buffer) : List UInt8 := (q.map fun b => b.data.drop b.wroteLen).flatten

/-- Nothing waits, and the event loop has no reason to run. -/
def Quiet (s : Outgoing) : Prop := s.writeQueue = [] ∧ s.loop = .idle ∧ s.watching = false

/-- The event loop is to empty the queue, or has done so and is about to say it. -/
def Draining (s : Outgoing) : Prop :=
  match s.loop with
  | .idle | .lock | .drain => s.watching = true
  | .stopWatcher => s.watching = true ∧ s.writeQueue = []
  | .setFlag => s.watching = false ∧ s.writeQueue = []

/-- Who is in charge of the bytes. -/
def Phase (s : Outgoing) : Prop :=
  match s.sender with
  | .write _ | .clearFlag _ => s.isWriteable = true ∧ s.Quiet
  | .addQueue _ => s.isWriteable = false ∧ s.Quiet
  | .startWatcher => s.isWriteable = false ∧ s.loop = .idle ∧ s.watching = false
  | .idle | .readFlag _ | .append _ =>
    s.isWriteable = true ∧ s.Quiet ∨ s.isWriteable = false ∧ s.Draining

structure Inv (s : Outgoing) : Prop where
  bytes : s.accepted ++ queued s.writeQueue ++ s.sender.rest = s.called
  phase : s.Phase

variable {s s' : Outgoing}

theorem queued_append (q q' : List Buffer) : queued (q ++ q') = queued q ++ queued q' := by
  simp [queued]

theorem Inv.ordered (h : Inv s) : Ordered s := by
  constructor
  · rw [← h.bytes, List.append_assoc]
    exact List.prefix_append _ _
  · intro hsend hloop hq
    have hphase := h.phase
    simp only [Phase, hsend, Draining, hloop] at hphase
    rcases hphase with ⟨-, hquiet⟩ | hdrain
    · exact absurd hquiet.1 hq
    · exact hdrain

theorem inv_new : Inv new := ⟨rfl, .inl ⟨rfl, rfl, rfl, rfl⟩⟩

theorem Inv.call (h : Inv s) (hsend : s.sender = .idle) (data : List UInt8) :
    Inv { s with sender := .readFlag data, called := s.called ++ data } := by
  have hphase := h.phase
  have hbytes := h.bytes
  simp only [Phase, hsend] at hphase
  simp only [hsend, SendPc.rest, List.append_nil] at hbytes
  exact ⟨congrArg (· ++ data) hbytes, hphase⟩

theorem Inv.stepSender (h : Inv s) {w : Written} (htime : s.Timely (.sender w))
    (hs : s.stepSender w = some s') :
    Inv s' := by
  have hphase := h.phase
  have hbytes := h.bytes
  cases hsend : s.sender with
  | idle => simp [Outgoing.stepSender, hsend] at hs
  | readFlag data =>
    simp only [Outgoing.stepSender, hsend, Option.some.injEq] at hs
    simp only [Phase, hsend] at hphase
    simp only [hsend, SendPc.rest] at hbytes
    subst hs
    rcases hphase with ⟨hflag, hquiet⟩ | ⟨hflag, hdrain⟩
    · simp only [hflag, if_true]
      exact ⟨hbytes, rfl, hquiet⟩
    · simp only [hflag, Bool.false_eq_true, if_false]
      exact ⟨hbytes, .inr ⟨rfl, hdrain⟩⟩
  | write data =>
    simp only [Phase, hsend] at hphase
    obtain ⟨hflag, hquiet⟩ := hphase
    simp only [hsend, SendPc.rest, hquiet.1, queued, List.map_nil, List.flatten_nil,
      List.append_nil] at hbytes
    simp only [Outgoing.stepSender, hsend] at hs
    cases w with
    | bytes n =>
      simp only at hs
      split at hs <;> cases hs
      rename_i hn
      have hdata : s.accepted ++ data.take n ++ data.drop n = s.called := by
        rw [List.append_assoc, List.take_append_drop]
        exact hbytes
      split
      · refine ⟨?_, hflag, hquiet⟩
        simpa [hquiet.1, queued, SendPc.rest] using hdata
      · rename_i hle
        refine ⟨?_, .inl ⟨hflag, hquiet⟩⟩
        rw [List.drop_of_length_le (by omega), List.append_nil] at hdata
        simpa [hquiet.1, queued, SendPc.rest] using hdata
    | again =>
      cases hs
      exact ⟨by simpa [hquiet.1, queued, SendPc.rest] using hbytes, hflag, hquiet⟩
    | failed =>
      cases hs
      exact ⟨by simpa [hquiet.1, queued, SendPc.rest] using hbytes, hflag, hquiet⟩
  | clearFlag data =>
    simp only [Phase, hsend] at hphase
    obtain ⟨-, hquiet⟩ := hphase
    simp only [hsend, SendPc.rest] at hbytes
    simp only [Outgoing.stepSender, hsend, Option.some.injEq] at hs
    subst hs
    exact ⟨hbytes, rfl, hquiet⟩
  | addQueue data =>
    simp only [Phase, hsend] at hphase
    obtain ⟨hflag, hquiet⟩ := hphase
    simp only [hsend, SendPc.rest] at hbytes
    simp only [Outgoing.stepSender, hsend] at hs
    split at hs <;> cases hs
    refine ⟨?_, hflag, hquiet.2⟩
    rw [queued_append, ← List.append_assoc]
    simpa [queued, SendPc.rest] using hbytes
  | startWatcher =>
    simp only [Phase, hsend] at hphase
    obtain ⟨hflag, hidle, -⟩ := hphase
    simp only [hsend, SendPc.rest] at hbytes
    simp only [Outgoing.stepSender, hsend, Option.some.injEq] at hs
    subst hs
    refine ⟨hbytes, .inr ⟨hflag, ?_⟩⟩
    simp [Draining, hidle]
  | append data =>
    simp only [Timely, hsend] at htime
    obtain ⟨hflag, hstop, hset⟩ := htime
    simp only [Phase, hsend, hflag, Bool.false_eq_true, false_and, false_or, true_and] at hphase
    simp only [hsend, SendPc.rest] at hbytes
    simp only [Outgoing.stepSender, hsend] at hs
    split at hs <;> cases hs
    refine ⟨?_, .inr ⟨hflag, ?_⟩⟩
    · rw [queued_append, ← List.append_assoc]
      simpa [queued, SendPc.rest] using hbytes
    · cases hloop : s.loop with
      | idle | lock | drain => simpa [Draining, hloop] using hphase
      | stopWatcher => exact absurd hloop hstop
      | setFlag => exact absurd hloop hset

/-- While `write_cb` runs, the protocol thread is outside the part that sets the queue up. -/
theorem Inv.looping (h : Inv s) (hloop : s.loop ≠ .idle) :
    s.isWriteable = false ∧ s.Draining ∧ ∀ s₁ : Outgoing, s₁.sender = s.sender →
      (s₁.isWriteable = true ∧ s₁.Quiet ∨ s₁.isWriteable = false ∧ s₁.Draining) → s₁.Phase := by
  have hphase := h.phase
  cases hsend : s.sender with
  | write | clearFlag | addQueue =>
    simp only [Phase, hsend] at hphase
    exact absurd hphase.2.2.1 hloop
  | startWatcher =>
    simp only [Phase, hsend] at hphase
    exact absurd hphase.2.1 hloop
  | idle | readFlag | append =>
    simp only [Phase, hsend] at hphase
    rcases hphase with ⟨-, hquiet⟩ | ⟨hflag, hdrain⟩
    · exact absurd hquiet.2.1 hloop
    · refine ⟨hflag, hdrain, fun s₁ h1 h2 => ?_⟩
      rw [Phase, h1]
      exact h2

theorem Inv.stepLoop (h : Inv s) {w : Written} (hs : s.stepLoop w = some s') : Inv s' := by
  have hbytes := h.bytes
  cases hloop : s.loop with
  | idle => simp [Outgoing.stepLoop, hloop] at hs
  | lock =>
    obtain ⟨hflag, hdrain, hphase⟩ := h.looping (by simp [hloop])
    simp only [Draining, hloop] at hdrain
    simp only [Outgoing.stepLoop, hloop] at hs
    split at hs <;> cases hs
    exact ⟨hbytes, hphase _ rfl (.inr ⟨hflag, hdrain⟩)⟩
  | drain =>
    obtain ⟨hflag, hdrain, hphase⟩ := h.looping (by simp [hloop])
    simp only [Draining, hloop] at hdrain
    simp only [Outgoing.stepLoop, hloop] at hs
    split at hs
    · rename_i hq
      cases hs
      exact ⟨hbytes, hphase _ rfl (.inr ⟨hflag, hdrain, hq⟩)⟩
    · rename_i b rest hq
      have hwrote : ∀ n, n ≤ b.data.length - b.wroteLen →
        s.accepted ++ (b.data.drop b.wroteLen).take n ++
          (b.data.drop (b.wroteLen + n) ++ queued rest) ++ s.sender.rest = s.called := by
        intro n hn
        rw [← hbytes, hq, ← List.drop_drop]
        simp only [queued, List.map_cons, List.flatten_cons, List.append_assoc]
        rw [← List.append_assoc ((b.data.drop b.wroteLen).take n), List.take_append_drop]
      cases w with
      | bytes n =>
        simp only at hs
        split at hs
        · cases hs
        rename_i hn
        have hwrote := hwrote n (by omega)
        split at hs <;> cases hs
        · exact ⟨hwrote, hphase _ rfl (.inr ⟨hflag, hdrain⟩)⟩
        · rename_i hlen
          have hall : b.data.drop (b.wroteLen + n) = [] := List.drop_of_length_le (by omega)
          rw [hall, List.nil_append] at hwrote
          exact ⟨hwrote, hphase _ rfl (.inr ⟨hflag, by simpa [Draining, hloop] using hdrain⟩)⟩
      | again =>
        cases hs
        exact ⟨hbytes, hphase _ rfl (.inr ⟨hflag, hdrain⟩)⟩
      | failed =>
        cases hs
        exact ⟨hbytes, hphase _ rfl (.inr ⟨hflag, hdrain⟩)⟩
  | stopWatcher =>
    obtain ⟨hflag, hdrain, hphase⟩ := h.looping (by simp [hloop])
    simp only [Draining, hloop] at hdrain
    simp only [Outgoing.stepLoop, hloop, Option.some.injEq] at hs
    subst hs
    exact ⟨hbytes, hphase _ rfl (.inr ⟨hflag, rfl, hdrain.2⟩)⟩
  | setFlag =>
    obtain ⟨hflag, hdrain, hphase⟩ := h.looping (by simp [hloop])
    simp only [Draining, hloop] at hdrain
    simp only [Outgoing.stepLoop, hloop, Option.some.injEq] at hs
    subst hs
    exact ⟨hbytes, hphase _ rfl (.inl ⟨rfl, hdrain.2, rfl, hdrain.1⟩)⟩

theorem Inv.writeCb (h : Inv s) (hwatch : s.watching = true) :
    Inv { s with loop := .lock } := by
  refine ⟨h.bytes, ?_⟩
  have hphase := h.phase
  cases hsend : s.sender with
  | write | clearFlag | addQueue | startWatcher =>
    simp [Phase, hsend, Quiet, hwatch] at hphase
  | idle | readFlag | append =>
    simp only [Phase, hsend] at hphase ⊢
    rcases hphase with ⟨-, -, -, hunwatched⟩ | ⟨hflag, -⟩
    · rw [hwatch] at hunwatched; cases hunwatched
    · exact .inr ⟨hflag, hwatch⟩

theorem Inv.step (h : Inv s) {act : Act} (htime : s.Timely act) (hs : s.step act = some s') :
    Inv s' := by
  unfold Outgoing.step at hs
  split at hs
  · cases hs
  cases act with
  | send data =>
    simp only at hs
    split at hs <;> cases hs
    rename_i hsend
    exact h.call hsend data
  | sender w => exact h.stepSender htime hs
  | writeCb =>
    simp only at hs
    split at hs <;> cases hs
    rename_i hidle
    exact h.writeCb hidle.2
  | loop w => exact h.stepLoop hs

/-- In every run in which `send` appends in time, the bytes go out in order and none is stranded. -/
theorem ordered_of_timely {s : Outgoing} (h : machine.ReachUnder Timely s) : s.Ordered := by
  refine (h.invariant (I := Inv) ?_ fun _ _ _ h htime hs => h.step htime hs).ordered
  rintro s rfl
  exact inv_new

/-- Two calls against a full socket, which `write_cb` then empties. -/
theorem ordered_of_timely_full :
    ∃ s, machine.ReachUnder Timely s ∧ s.accepted = [1, 2] ∧ s.called = [1, 2] ∧
      s.Ordered := by
  have hrun : (machine.runUnder Timely new [.send [1], .sender .again, .sender .again,
    .sender .again, .sender .again, .sender .again, .send [2], .sender .again, .sender .again,
    .writeCb, .loop .again, .loop (.bytes 1), .loop (.bytes 1), .loop .again, .loop .again,
    .loop .again]).map
        (fun s => (s.accepted, s.called)) =
      some ([1, 2], [1, 2]) := by decide +kernel
  obtain ⟨s, hs, hres⟩ := Option.map_eq_some_iff.1 hrun
  have hreach : machine.ReachUnder Timely s := Machine.ReachUnder.run (M := machine) (.init rfl) hs
  exact ⟨s, hreach, congrArg Prod.fst hres, congrArg Prod.snd hres, ordered_of_timely hreach⟩

/-- The second call has read the flag, but appends only after `write_cb` is through; the third
overtakes it. -/
theorem exists_overtaken : ∃ s, machine.Reach s ∧ ¬ s.Ordered := by
  have hrun : (machine.run new [.send [1], .sender .again, .sender .again,
    .sender .again, .sender .again, .sender .again, .send [2], .sender .again, .writeCb,
    .loop .again, .loop (.bytes 1), .loop .again, .loop .again, .loop .again, .sender .again,
    .send [3], .sender .again, .sender (.bytes 1)]).map
      (fun s => (s.accepted, s.called)) = some ([1, 3], [1, 2, 3]) := by decide +kernel
  obtain ⟨s, hs, hres⟩ := Option.map_eq_some_iff.1 hrun
  refine ⟨s, Machine.ReachUnder.run (M := machine) (.init rfl) hs, fun h => ?_⟩
  have hpre := h.prefixOf
  rw [Prod.mk.injEq] at hres
  rw [hres.1, hres.2] at hpre
  exact absurd hpre (by decide)

end Outgoing

end Resend.Socks
