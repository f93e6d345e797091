import Resend.Lib.Threads

/-!
# The sender queue under several threads

`in_sender` stands for one token that a writer has: it is with the caller that is about to queue the
writer, with the queue, or with the sender thread that runs it. Who finds the bit set leaves a
request in `reback_sender`, in a second step; a request that is left after the sender's last look at
the bit is not seen.
-/

namespace Resend.Udp

/-- The two bits and the queue entries of one live writer; `waiting` says that a call of
`add_to_sender_queue` has begun since the last start of `do_send`. -/
structure SenderBits where
  inSender : Bool
  reback : Bool
  queued : Nat
  waiting : Bool

namespace SenderBits

/-- Where a thread is in `add_to_sender_queue` and in `connection_do_sender`. -/
inductive Pc
  | idle
  | addSetIn
  | addQueue
  | addSetBack
  | resetBack
  | start
  | sending
  | resetIn
  | testBack
deriving DecidableEq

/-- Call `add_to_sender_queue`, take the writer from the queue, go on; `do_send` may itself ask to
come back. -/
inductive Op
  | call
  | take
  | go
  | comeBack

def step (s : SenderBits) : Pc → Op → Option (SenderBits × Pc)
  | .idle, .call => some ({ s with waiting := true }, .addSetIn)
  | .addSetIn, .go => some ({ s with inSender := true }, if s.inSender then .addSetBack else .addQueue)
  | .addQueue, .go => some ({ s with queued := s.queued + 1 }, .idle)
  | .addSetBack, .go => some ({ s with reback := true }, .idle)
  | .idle, .take => if 0 < s.queued then some ({ s with queued := s.queued - 1 }, .resetBack) else none
  | .resetBack, .go => some ({ s with reback := false }, .start)
  | .start, .go => some ({ s with waiting := false }, .sending)
  | .sending, .comeBack => some ({ s with reback := true }, .sending)
  | .sending, .go => some (s, .resetIn)
  | .resetIn, .go => some ({ s with inSender := false }, .testBack)
  -- the sender thread's own call of `add_to_sender_queue` begins here
  | .testBack, .go =>
    some ({ s with reback := false, waiting := s.waiting || s.reback },
      if s.reback then .addSetIn else .idle)
  | _, _ => none

/-- A writer right after `__start_sender`. -/
def program : Program SenderBits Pc Op where
  init s := s = ⟨false, false, 0, false⟩
  start := .idle
  step := step

/-- The thread has the token. -/
def Pc.Token (p : Pc) : Prop :=
  p = .addQueue ∨ p = .resetBack ∨ p = .start ∨ p = .sending ∨ p = .resetIn

theorem step_cases {s s' : SenderBits} {p p' : Pc} {op : Op} (h : s.step p op = some (s', p')) :
    (p = .idle ∧ s' = { s with waiting := true } ∧ p' = .addSetIn) ∨
    (p = .addSetIn ∧ s.inSender = false ∧ s' = { s with inSender := true } ∧ p' = .addQueue) ∨
    (p = .addSetIn ∧ s.inSender = true ∧ s' = s ∧ p' = .addSetBack) ∨
    (p = .addQueue ∧ s' = { s with queued := s.queued + 1 } ∧ p' = .idle) ∨
    (p = .addSetBack ∧ op = .go ∧ s' = { s with reback := true } ∧ p' = .idle) ∨
    (p = .idle ∧ 0 < s.queued ∧ s' = { s with queued := s.queued - 1 } ∧ p' = .resetBack) ∨
    (p = .resetBack ∧ s' = { s with reback := false } ∧ p' = .start) ∨
    (p = .start ∧ s' = { s with waiting := false } ∧ p' = .sending) ∨
    (p = .sending ∧ s' = { s with reback := true } ∧ p' = .sending) ∨
    (p = .sending ∧ s' = s ∧ p' = .resetIn) ∨
    (p = .resetIn ∧ s' = { s with inSender := false } ∧ p' = .testBack) ∨
    (p = .testBack ∧ s' = { s with reback := false, waiting := s.waiting || s.reback } ∧
      p' = if s.reback then .addSetIn else .idle) := by
  obtain ⟨inSender, reback, queued, waiting⟩ := s
  cases p <;> cases op <;> simp only [step, Option.ite_none_right_eq_some, Option.some.injEq,
    Prod.mk.injEq, reduceCtorEq, false_and, true_and, false_or, or_false] at h ⊢
  case idle.call => exact .inl ⟨h.1.symm, h.2.symm⟩
  case idle.take => exact .inr ⟨h.1, h.2.1.symm, h.2.2.symm⟩
  case addSetIn.go =>
    cases inSender
    · exact .inl ⟨rfl, h.1.symm, h.2.symm⟩
    · exact .inr ⟨rfl, h.1.symm, h.2.symm⟩
  case sending.comeBack => exact .inl ⟨h.1.symm, h.2.symm⟩
  case sending.go => exact .inr ⟨h.1.symm, h.2.symm⟩
  all_goals exact ⟨h.1.symm, h.2.symm⟩

/-! ### One token -/

/-- The writer is queued at most once, and at most one thread is in `do_send`. -/
structure Single (t : Threads SenderBits Pc) : Prop where
  queued : t.shared.queued ≤ 1
  sending : ∀ i j, t.pc i = .sending → t.pc j = .sending → i = j

/-- The token is in one place: with one thread or in the queue. -/
structure Inv (t : Threads SenderBits Pc) : Prop where
  queued : t.shared.queued ≤ 1
  unique : ∀ i j, (t.pc i).Token → (t.pc j).Token → i = j
  apart : 0 < t.shared.queued → ∀ i, ¬ (t.pc i).Token
  free : t.shared.inSender = false → t.shared.queued = 0 ∧ ∀ i, ¬ (t.pc i).Token
  held : t.shared.inSender = true → 0 < t.shared.queued ∨ ∃ i, (t.pc i).Token

section inv
variable {t t' : Threads SenderBits Pc} {i : Nat} {s : SenderBits} {p : Pc}

theorem Inv.move (h : Inv t) (hin : s.inSender = t.shared.inSender) (hq : s.queued = t.shared.queued)
    (hto : p.Token ↔ (t.pc i).Token) : Inv (t.go i s p) where
  queued := by rw [Threads.shared_go, hq]; exact h.queued
  unique := Threads.unique_go (P := Pc.Token) h.unique fun hp j hj hj' =>
    hj (h.unique j i hj' (hto.1 hp))
  apart hpos := by
    rw [Threads.shared_go, hq] at hpos
    exact (Threads.forall_pc_go (P := fun _ p => ¬ Pc.Token p)).2
      ⟨fun hp => h.apart hpos i (hto.1 hp), fun j _ => h.apart hpos j⟩
  free hs := by
    rw [Threads.shared_go, hin] at hs
    obtain ⟨h1, h2⟩ := h.free hs
    refine ⟨by rw [Threads.shared_go, hq]; exact h1, ?_⟩
    exact (Threads.forall_pc_go (P := fun _ p => ¬ Pc.Token p)).2
      ⟨fun hp => h2 i (hto.1 hp), fun j _ => h2 j⟩
  held hs := by
    rw [Threads.shared_go, hin] at hs
    rw [Threads.shared_go, hq]
    exact (h.held hs).imp id fun hex => Threads.exists_pc_go_of (P := Pc.Token) hex hto.2

/-- The thread takes the token up or puts it down: nobody else has it. -/
theorem Inv.pass (h : ∀ j ≠ i, ¬ (t.pc j).Token) (hq : s.queued ≤ 1)
    (hapart : 0 < s.queued → ¬ p.Token) (hfree : s.inSender = false → s.queued = 0 ∧ ¬ p.Token)
    (hheld : s.inSender = true → 0 < s.queued ∨ p.Token) :
    Inv (t.go i s p) where
  queued := hq
  unique := by
    intro j k hj hk
    by_cases hji : j = i <;> by_cases hki : k = i
    · rw [hji, hki]
    · exact absurd (Threads.pc_go_ne hki s p t ▸ hk) (h k hki)
    · exact absurd (Threads.pc_go_ne hji s p t ▸ hj) (h j hji)
    · exact absurd (Threads.pc_go_ne hji s p t ▸ hj) (h j hji)
  apart hpos := (Threads.forall_pc_go (P := fun _ p => ¬ Pc.Token p)).2 ⟨hapart hpos, h⟩
  free hs := ⟨(hfree hs).1, (Threads.forall_pc_go (P := fun _ p => ¬ Pc.Token p)).2 ⟨(hfree hs).2, h⟩⟩
  held hs := (hheld hs).imp id fun hp => ⟨i, by rw [Threads.pc_go_self]; exact hp⟩

theorem Inv.others (h : Inv t) (hi : (t.pc i).Token) : ∀ j ≠ i, ¬ (t.pc j).Token :=
  fun j hj hj' => hj (h.unique j i hj' hi)

theorem Inv.step (h : Inv t) {a : Nat × Op} (hs : program.machine.step t a = some t') : Inv t' := by
  obtain ⟨i, op⟩ := a
  obtain ⟨s, p, hstep, rfl⟩ := Program.machine_step hs
  obtain ⟨hpc, rfl, rfl⟩ | ⟨hpc, hin, rfl, rfl⟩ | ⟨hpc, hin, rfl, rfl⟩ |
      ⟨hpc, rfl, rfl⟩ | ⟨hpc, -, rfl, rfl⟩ |
    ⟨hpc, hpos, rfl, rfl⟩ | ⟨hpc, rfl, rfl⟩ | ⟨hpc, rfl, rfl⟩ | ⟨hpc, rfl, rfl⟩ |
        ⟨hpc, rfl, rfl⟩ | ⟨hpc, rfl, rfl⟩ |
    ⟨hpc, rfl, rfl⟩ := step_cases hstep
  · exact h.move rfl rfl (by simp [hpc, Pc.Token])
  · -- the bit was clear: the token comes into being
    obtain ⟨hq, hnone⟩ := h.free hin
    exact .pass (fun j _ => hnone j) (Nat.le_trans (Nat.le_of_eq hq) (Nat.zero_le 1))
      (fun hpos => absurd hq (Nat.ne_of_gt hpos)) (fun he => by cases he) fun _ => .inr (.inl rfl)
  · exact h.move rfl rfl (by simp [hpc, Pc.Token])
  · -- from the caller into the queue
    have hi : (t.pc i).Token := .inl hpc
    have hq : t.shared.queued = 0 := Nat.eq_zero_of_not_pos fun hpos => h.apart hpos i hi
    refine .pass (h.others hi) (by simp [hq]) (fun _ => by simp [Pc.Token]) (fun hin => ?_) fun _ =>
      .inl (Nat.succ_pos _)
    exact absurd hi ((h.free hin).2 i)
  · exact h.move rfl rfl (by simp [hpc, Pc.Token])
  · -- from the queue to a sender thread
    have hq : t.shared.queued - 1 = 0 := by have := h.queued; omega
    refine .pass (fun j _ => h.apart hpos j) (by simp [hq])
      (fun hpos' => absurd hq (Nat.ne_of_gt hpos')) (fun hin => ?_) fun _ => .inr (.inr (.inl rfl))
    exact absurd (h.free hin).1 (Nat.ne_of_gt hpos)
  · exact h.move rfl rfl (by simp [hpc, Pc.Token])
  · exact h.move rfl rfl (by simp [hpc, Pc.Token])
  · exact h.move rfl rfl (by simp [hpc, Pc.Token])
  · exact h.move rfl rfl (by simp [hpc, Pc.Token])
  · -- `in_sender` is cleared: the token is gone
    have hi : (t.pc i).Token := by simp [hpc, Pc.Token]
    have hq : t.shared.queued = 0 := Nat.eq_zero_of_not_pos fun hpos => h.apart hpos i hi
    exact .pass (h.others hi) (by simp [hq]) (fun _ => by simp [Pc.Token])
      (fun _ => ⟨hq, by simp [Pc.Token]⟩) fun he => by cases he
  · refine h.move rfl rfl ?_
    split <;> simp [hpc, Pc.Token]

theorem inv_init (h : program.machine.init t) : Inv t := by
  obtain ⟨hinit, hstart⟩ := h
  have hs : t.shared = ⟨false, false, 0, false⟩ := hinit
  have hnone : ∀ i, ¬ (t.pc i).Token := fun i => by rw [hstart i]; simp [program, Pc.Token]
  refine ⟨?_, fun i _ hi => absurd hi (hnone i), fun _ => hnone, fun _ => ⟨?_, hnone⟩, fun he => ?_⟩
  all_goals rw [hs] at *
  · exact Nat.zero_le 1
  · cases he

/-- Whatever the interleaving, the writer is in the queue at most once, and one thread at a time
sends for it. -/
theorem single_of_reach (h : program.machine.Reach t) : Single t := by
  have hI : Inv t := h.invariant (fun _ => inv_init) fun t a t' hI _ hs => hI.step hs
  exact ⟨hI.queued, fun i j hi hj =>
    hI.unique i j (.inr (.inr (.inr (.inl hi)))) (.inr (.inr (.inr (.inl hj))))⟩

/-- A caller, a second one while the first has the token, and the run of a sender thread. -/
theorem single_of_reach_run :
    ∃ t, program.machine.Reach t ∧ t.pc 2 = .sending ∧ t.shared.reback = false ∧ Single t := by
  have hrun : (program.machine.run ⟨⟨false, false, 0, false⟩, fun _ => .idle⟩
      [(0, .call), (0, .go), (1, .call), (1, .go), (0, .go), (2, .take),
        (1, .go), (2, .go), (2, .go)]).map (fun t => (t.pc 2, t.shared.reback)) =
          some (.sending, false) := by
    decide +kernel
  obtain ⟨t, ht, heq⟩ := Option.map_eq_some_iff.1 hrun
  simp only [Prod.mk.injEq] at heq
  have hinit : program.machine.init ⟨⟨false, false, 0, false⟩, fun _ => .idle⟩ := ⟨rfl, fun _ => rfl⟩
  have hreach := Machine.ReachUnder.run (M := program.machine) (.init hinit) ht
  exact ⟨t, hreach, heq.1, heq.2, single_of_reach hreach⟩

end inv

/-! ### Requests -/

/-- With nobody inside either function, what is asked for is in the queue: a request to come back,
and a call that no `do_send` has started after. -/
def NoLostRequest (t : Threads SenderBits Pc) : Prop :=
  (∀ i, t.pc i = .idle) → (t.shared.reback = true → 0 < t.shared.queued) ∧
    (t.shared.waiting = true → 0 < t.shared.queued)

/-- A caller sets `reback_sender` while `in_sender` is still set, or before the last look of a
sender that has just cleared it. -/
def Seen (t : Threads SenderBits Pc) (a : Nat × Op) : Prop :=
  t.pc a.1 = .addSetBack → t.shared.inSender = true ∨ ∃ j, t.pc j = .testBack

/-- The thread will see to a request: it is about to ask for a run, or to start one. -/
def Pc.Serves (p : Pc) : Prop :=
  p = .addSetIn ∨ p = .addSetBack ∨ p = .addQueue ∨ p = .resetBack ∨ p = .start

structure Heard (t : Threads SenderBits Pc) : Prop extends Inv t where
  back : t.shared.reback = true → t.shared.inSender = true ∨ ∃ j, t.pc j = .testBack
  waiting : t.shared.waiting = true → t.shared.reback = true ∨
    0 < t.shared.queued ∨ ∃ j, (t.pc j).Serves

section heard
variable {t t' : Threads SenderBits Pc} {i : Nat}

theorem Heard.step (h : Heard t) {a : Nat × Op} (hc : Seen t a)
    (hs : program.machine.step t a = some t') : Heard t' := by
  have hI := h.toInv.step hs
  obtain ⟨i, op⟩ := a
  obtain ⟨s, p, hstep, rfl⟩ := Program.machine_step hs
  -- a thread elsewhere that looks at the bit again, or serves
  have hlook : ∀ {s p}, t.pc i ≠ .testBack → (∃ j, t.pc j = .testBack) →
      ∃ j, (t.go i s p).pc j = .testBack :=
    fun hi hex => Threads.exists_pc_go_of (P := fun p => p = Pc.testBack) hex fun he => absurd he hi
  have hserve : ∀ {s p}, ((t.pc i).Serves → p.Serves) → (∃ j, (t.pc j).Serves) →
      ∃ j, ((t.go i s p).pc j).Serves :=
    fun hi hex => Threads.exists_pc_go_of (P := Pc.Serves) hex hi
  have hself : ∀ {s p}, p.Serves → ∃ j, ((t.go i s p).pc j).Serves :=
    fun hp => ⟨i, by rwa [Threads.pc_go_self]⟩
  obtain ⟨hpc, rfl, rfl⟩ | ⟨hpc, hin, rfl, rfl⟩ | ⟨hpc, hin, rfl, rfl⟩ |
      ⟨hpc, rfl, rfl⟩ | ⟨hpc, -, rfl, rfl⟩ |
    ⟨hpc, hpos, rfl, rfl⟩ | ⟨hpc, rfl, rfl⟩ | ⟨hpc, rfl, rfl⟩ | ⟨hpc, rfl, rfl⟩ |
        ⟨hpc, rfl, rfl⟩ | ⟨hpc, rfl, rfl⟩ |
    ⟨hpc, rfl, rfl⟩ := step_cases hstep
  · exact ⟨hI, fun hb => (h.back hb).imp id (hlook (by simp [hpc])),
      fun _ => .inr (.inr (hself (.inl rfl)))⟩
  · exact ⟨hI, fun _ => .inl rfl, fun hw => (h.waiting hw).imp id fun hrest => hrest.imp id fun _ =>
      hself (.inr (.inr (.inl rfl)))⟩
  · exact ⟨hI, fun hb => (h.back hb).imp id (hlook (by simp [hpc])),
      fun hw => (h.waiting hw).imp id fun hrest =>
      hrest.imp id fun _ => hself (.inr (.inl rfl))⟩
  · exact ⟨hI, fun hb => (h.back hb).imp id (hlook (by simp [hpc])),
      fun _ => .inr (.inl (Nat.succ_pos _))⟩
  · exact ⟨hI, fun _ => (hc hpc).imp id (hlook (by simp [hpc])), fun _ => .inl rfl⟩
  · exact ⟨hI, fun hb => (h.back hb).imp id (hlook (by simp [hpc])),
      fun _ => .inr (.inr (hself (.inr (.inr (.inr (.inl rfl))))))⟩
  · exact ⟨hI, fun hb => (by cases hb), fun _ => .inr (.inr (hself (.inr (.inr (.inr (.inr rfl))))))⟩
  · exact ⟨hI, fun hb => (h.back hb).imp id (hlook (by simp [hpc])), fun hw => by cases hw⟩
  · -- `do_send` asks to come back: its thread has the token
    refine ⟨hI, fun _ => .inl ?_, fun _ => .inl rfl⟩
    show t.shared.inSender = true
    rw [← Bool.not_eq_false]
    exact fun hin => (h.free hin).2 i (by simp [hpc, Pc.Token])
  · exact ⟨hI, fun hb => (h.back hb).imp id (hlook (by simp [hpc])),
      fun hw => (h.waiting hw).imp id fun hrest =>
      hrest.imp id (hserve (by simp [hpc, Pc.Serves]))⟩
  · exact ⟨hI, fun _ => .inr ⟨i, Threads.pc_go_self ..⟩, fun hw => (h.waiting hw).imp id fun hrest =>
      hrest.imp id (hserve (by simp [hpc, Pc.Serves]))⟩
  · -- the last look: a request that is there is taken up
    refine ⟨hI, fun hb => (by cases hb), fun hw => ?_⟩
    cases hback : t.shared.reback with
    | true => exact .inr (.inr (hself (.inl rfl)))
    | false =>
      have hw : (t.shared.waiting || t.shared.reback) = true := hw
      rw [hback, Bool.or_false] at hw
      have hrest := (h.waiting hw).resolve_left (by simp [hback])
      exact .inr (hrest.imp id (hserve (by simp [hpc, Pc.Serves])))

theorem heard_init (h : program.machine.init t) : Heard t := by
  have hs : t.shared = ⟨false, false, 0, false⟩ := h.1
  exact ⟨inv_init h, by simp [hs], by simp [hs]⟩

theorem Heard.noLostRequest (h : Heard t) : NoLostRequest t := by
  intro hidle
  have hback : t.shared.reback = true → 0 < t.shared.queued := by
    intro hb
    have hin : t.shared.inSender = true := (h.back hb).resolve_right fun ⟨j, hj⟩ => by
      rw [hidle j] at hj
      cases hj
    exact (h.held hin).resolve_right fun ⟨j, hj⟩ => by
      rw [hidle j] at hj
      simp [Pc.Token] at hj
  refine ⟨hback, fun hw => ?_⟩
  rcases h.waiting hw with hb | hq | ⟨j, hj⟩
  · exact hback hb
  · exact hq
  · rw [hidle j] at hj
    simp [Pc.Serves] at hj

/-- As long as every request to come back is set in time, none is lost. -/
theorem noLostRequest_of_seen (h : program.machine.ReachUnder Seen t) : NoLostRequest t :=
  Heard.noLostRequest (h.invariant (fun _ => heard_init) fun _ _ _ hI hc hs => hI.step hc hs)

/-- A writer nobody has asked anything of yet. -/
def rested : Threads SenderBits Pc := ⟨⟨false, false, 0, false⟩, fun _ => .idle⟩

theorem rested_init : program.machine.init rested := ⟨rfl, fun _ => rfl⟩

/-- The part of `Seen` that can be read off the bit. -/
def SeenSet (t : Threads SenderBits Pc) (a : Nat × Op) : Prop :=
  t.pc a.1 = .addSetBack → t.shared.inSender = true

instance (t : Threads SenderBits Pc) (a : Nat × Op) : Decidable (SeenSet t a) :=
  inferInstanceAs (Decidable (_ → _))

/-- The second caller's request is set while the sender runs, and the sender queues the writer again. -/
theorem noLostRequest_of_seen_back :
    ∃ t, program.machine.ReachUnder Seen t ∧ t.shared.queued = 1 ∧ NoLostRequest t := by
  have hrun : (program.machine.runUnder SeenSet rested
      [(0, .call), (0, .go), (0, .go), (2, .take), (2, .go), (2, .go), (1, .call), (1, .go),
        (1, .go), (2, .go), (2, .go), (2, .go), (2, .go), (2, .go)]).map
          (·.shared.queued) = some 1 := by
    decide +kernel
  obtain ⟨t, ht, hq⟩ := Option.map_eq_some_iff.1 hrun
  have hset : program.machine.ReachUnder SeenSet t := Machine.ReachUnder.run (.init rested_init) ht
  have hreach : program.machine.ReachUnder Seen t := hset.mono fun _ _ hc hpc => .inl (hc hpc)
  exact ⟨t, hreach, hq, noLostRequest_of_seen hreach⟩

/-- The second caller finds `in_sender` set; the sender clears it and looks for requests before that
caller sets its own. -/
theorem exists_lost_request : ¬ ∀ t, program.machine.Reach t → NoLostRequest t := by
  intro h
  obtain ⟨as, has⟩ : ∃ as : List (Nat × Op), as =
    [(0, .call), (0, .go), (0, .go), (2, .take), (2, .go), (2, .go), (1, .call), (1, .go), (2, .go),
      (2, .go), (2, .go), (1, .go)] := ⟨_, rfl⟩
  have hrun : (program.machine.run rested as).map
      (fun t => (t.pc 0, t.pc 1, t.pc 2, t.shared.reback, t.shared.queued)) =
        some (.idle, .idle, .idle, true, 0) := by
    subst has
    decide +kernel
  obtain ⟨t, ht, heq⟩ := Option.map_eq_some_iff.1 hrun
  simp only [Prod.mk.injEq] at heq
  obtain ⟨h0, h1, h2, hback, hq⟩ := heq
  have hidle : ∀ i, t.pc i = .idle := by
    intro i
    by_cases hi : i < 3
    · interval_cases i
      exacts [h0, h1, h2]
    · have hnot : ∀ a ∈ as, a.1 ≠ i := by
        subst has
        simp only [List.mem_cons, List.not_mem_nil, or_false, forall_eq_or_imp, forall_eq]
        omega
      exact Program.pc_of_runUnder ht hnot
  have hpos :=
      (h t (Machine.ReachUnder.run (M := program.machine) (.init rested_init) ht) hidle).1 hback
  rw [hq] at hpos
  exact Nat.lt_irrefl _ hpos

end heard

end SenderBits

end Resend.Udp
