import Resend.Lib.Threads
import Resend.Udp.Connection

/-!
# The left cursor under several threads

`set_connection_left_window_cursor` puts its number into the cursor by an exchange and, if it gets a
larger one back, puts that one back in the same way. In between the cursor is too low, but the
larger number is in the hand of a thread: the largest number is always either in the cursor or in
some hand.
-/

namespace Resend.Udp

/-- The cursor, every value it ever had, and the sequence numbers of the executions so far. -/
structure LeftCursor where
  cursor : Nat
  written : List Nat
  seqs : List Nat

namespace LeftCursor

/-- An execution for `base` that is about to exchange `lseq` after `n` exchanges, or that has
returned `res`. -/
inductive Pc
  | idle
  | exchange (base lseq n : Nat)
  | done (base : Nat) (res : Int) (n : Nat)
deriving DecidableEq

inductive Op
  | call (seq : Nat)
  | go

def step (s : LeftCursor) : Pc → Op → Option (LeftCursor × Pc)
  | .idle, .call seq =>
    if seq < 2 ^ 32 then some ({ s with seqs := seq :: s.seqs }, .exchange seq seq 0) else none
  | .exchange base lseq n, .go =>
    let olseq := s.cursor
    some ({ s with cursor := lseq, written := lseq :: s.written },
      if olseq > lseq then .exchange base olseq (n + 1)
      else .done base (if lseq ≤ base then 0 else -1) (n + 1))
  | _, _ => none

/-- The cursor starts at `initial`. -/
def program (initial : Nat) : Program LeftCursor Pc Op where
  init s := s = ⟨initial, [initial], []⟩
  start := .idle
  step := step

/-- The number a thread has in hand. -/
def Pc.hand : Pc → Option Nat
  | .exchange _ lseq _ => some lseq
  | _ => none

/-- The maximum of the initial value and all sequence numbers. -/
def top (initial : Nat) (seqs : List Nat) : Nat := seqs.foldr max initial

theorem top_le {initial M : Nat} {seqs : List Nat} (h : initial ≤ M) (hs : ∀ seq ∈ seqs, seq ≤ M) :
    top initial seqs ≤ M := by
  induction seqs with
  | nil => exact h
  | cons seq seqs ih =>
    exact Nat.max_le.2 ⟨hs seq List.mem_cons_self, ih fun q hq => hs q (List.mem_cons_of_mem _ hq)⟩

/-- What an execution knows: it has gone up with every exchange, from its own number to one that the
cursor had; it reports `-1` only past a larger one. -/
def PcOk (initial : Nat) (s : LeftCursor) : Pc → Prop
  | .idle => True
  | .exchange base lseq n =>
    base ∈ s.seqs ∧ base + n ≤ lseq ∧ lseq ≤ top initial s.seqs ∧ (lseq = base ∨ lseq ∈ s.written)
  | .done base res n =>
    base ∈ s.seqs ∧ base + n ≤ top initial s.seqs + 1 ∧ (res = -1 → ∃ v ∈ s.written, base < v)

structure Inv (initial : Nat) (t : Threads LeftCursor Pc) : Prop where
  seqs : ∀ seq ∈ t.shared.seqs, seq < 2 ^ 32
  cursor : t.shared.cursor ≤ top initial t.shared.seqs ∧ t.shared.cursor ∈ t.shared.written
  pcs : ∀ i, PcOk initial t.shared (t.pc i)
  largest : t.shared.cursor = top initial t.shared.seqs ∨
    ∃ i, (t.pc i).hand = some (top initial t.shared.seqs)

section inv
variable {initial : Nat} {t t' : Threads LeftCursor Pc} {i : Nat}

theorem step_cases {s s' : LeftCursor} {p p' : Pc} {op : Op} (h : s.step p op = some (s', p')) :
    (∃ seq, p = .idle ∧ seq < 2 ^ 32 ∧ s' = { s with seqs := seq :: s.seqs } ∧
      p' = .exchange seq seq 0) ∨
    (∃ base lseq n, p = .exchange base lseq n ∧
      s' = { s with cursor := lseq, written := lseq :: s.written } ∧
      ((lseq < s.cursor ∧ p' = .exchange base s.cursor (n + 1)) ∨
        (s.cursor ≤ lseq ∧ p' = .done base (if lseq ≤ base then 0 else -1) (n + 1)))) := by
  cases p with
  | idle =>
    cases op with
    | call seq =>
      simp only [step, Option.ite_none_right_eq_some, Option.some.injEq, Prod.mk.injEq] at h
      exact .inl ⟨seq, rfl, h.1, h.2.1.symm, h.2.2.symm⟩
    | go => cases h
  | exchange base lseq n =>
    cases op <;> cases h
    refine .inr ⟨base, lseq, n, rfl, rfl, ?_⟩
    rcases Nat.lt_or_ge lseq s.cursor with hlt | hge
    · exact .inl ⟨hlt, if_pos hlt⟩
    · exact .inr ⟨hge, if_neg (Nat.not_lt.2 hge)⟩
  | done base res n => cases op <;> cases h

/-- More sequence numbers and more values in the cursor take nothing away. -/
theorem PcOk.mono {s s' : LeftCursor} {p : Pc} (h : PcOk initial s p)
    (hseqs : ∀ q ∈ s.seqs, q ∈ s'.seqs) (htop : top initial s.seqs ≤ top initial s'.seqs)
    (hw : ∀ v ∈ s.written, v ∈ s'.written) : PcOk initial s' p := by
  cases p with
  | idle => trivial
  | exchange base lseq n =>
    obtain ⟨h1, h2, h3, h4⟩ := h
    exact ⟨hseqs _ h1, h2, Nat.le_trans h3 htop, h4.imp id (hw _)⟩
  | done base res n =>
    obtain ⟨h1, h2, h3⟩ := h
    refine ⟨hseqs _ h1, Nat.le_trans h2 (Nat.succ_le_succ htop), fun hr => ?_⟩
    obtain ⟨v, hv, hlt⟩ := h3 hr
    exact ⟨v, hw v hv, hlt⟩

theorem Inv.step (h : Inv initial t) {a : Nat × Op}
    (hs : (program initial).machine.step t a = some t') : Inv initial t' := by
  obtain ⟨i, op⟩ := a
  obtain ⟨s, p, hstep, rfl⟩ := Program.machine_step hs
  have hin := h.pcs i
  obtain ⟨seq, hpc, hlt, rfl, rfl⟩ | ⟨base, lseq, n, hpc, rfl, hnext⟩ := step_cases hstep
  · have hmono : top initial t.shared.seqs ≤ top initial (seq :: t.shared.seqs) := Nat.le_max_right _ _
    refine ⟨?_, ⟨Nat.le_trans h.cursor.1 hmono, h.cursor.2⟩,
      Threads.forall_pc_go.2 ⟨?_, fun j _ => ?_⟩, ?_⟩
    · intro q hq
      rcases List.mem_cons.1 hq with rfl | hq
      exacts [hlt, h.seqs q hq]
    · exact ⟨List.mem_cons_self, Nat.le_refl _, Nat.le_max_left _ _, .inl rfl⟩
    · exact (h.pcs j).mono (fun q hq => List.mem_cons_of_mem _ hq) hmono fun v hv => hv
    · -- the new number is the largest, or the old largest one is where it was
      rcases Nat.le_total seq (top initial t.shared.seqs) with hle | hle
      · have htop : top initial (seq :: t.shared.seqs) = top initial t.shared.seqs :=
          Nat.max_eq_right hle
        show t.shared.cursor = top initial (seq :: t.shared.seqs) ∨
          ∃ j, ((t.go i _ _).pc j).hand = some (top initial (seq :: t.shared.seqs))
        rw [htop]
        exact h.largest.imp id fun hex =>
          Threads.exists_pc_go_of (P := fun p : Pc =>
            p.hand = some (top initial t.shared.seqs)) hex fun hi => by
            rw [hpc] at hi
            cases hi
      · refine .inr ⟨i, ?_⟩
        rw [Threads.pc_go_self]
        exact congrArg some (Nat.max_eq_left hle).symm
  · rw [hpc] at hin
    obtain ⟨h1, h2, h3, h4⟩ := hin
    have hothers : ∀ j, PcOk initial
        { t.shared with cursor := lseq, written := lseq :: t.shared.written } (t.pc j) :=
      fun j => (h.pcs j).mono (fun q hq => hq) (Nat.le_refl _) fun v hv => List.mem_cons_of_mem _ hv
    rcases hnext with ⟨hlt, rfl⟩ | ⟨hge, rfl⟩
    · refine ⟨h.seqs, ⟨h3, List.mem_cons_self⟩,
        Threads.forall_pc_go.2 ⟨?_, fun j _ => hothers j⟩, .inr ?_⟩
      · exact ⟨h1, by omega, h.cursor.1, .inr (List.mem_cons_of_mem _ h.cursor.2)⟩
      · -- what was in the cursor is in this hand now
        rcases h.largest with heq | ⟨j, hj⟩
        · refine ⟨i, ?_⟩
          rw [Threads.pc_go_self]
          exact congrArg some heq
        · refine Threads.exists_pc_go_of (P := fun p : Pc =>
            p.hand = some (top initial t.shared.seqs)) ⟨j, hj⟩ fun hi => ?_
          rw [hpc] at hi
          have hle := h.cursor.1
          have hi : lseq = top initial t.shared.seqs := Option.some.inj hi
          omega
    · refine ⟨h.seqs, ⟨h3, List.mem_cons_self⟩, Threads.forall_pc_go.2 ⟨?_, fun j _ => hothers j⟩, ?_⟩
      · refine ⟨h1, ?_, fun hres => ?_⟩
        · show base + (n + 1) ≤ top initial t.shared.seqs + 1
          omega
        by_cases hle : lseq ≤ base
        · rw [if_pos hle] at hres
          cases hres
        · exact ⟨lseq, List.mem_cons_self, Nat.lt_of_not_le hle⟩
      · rcases h.largest with heq | ⟨j, hj⟩
        · exact .inl (Nat.le_antisymm h3 (heq ▸ hge))
        · by_cases hji : j = i
          · rw [hji, hpc] at hj
            exact .inl (Option.some.inj hj)
          · refine .inr ⟨j, ?_⟩
            rw [Threads.pc_go_ne hji]
            exact hj

theorem inv_of_reach (h : (program initial).machine.Reach t) : Inv initial t := by
  refine h.invariant ?_ fun t a t' hI _ hs => hI.step hs
  rintro t ⟨hinit, hstart⟩
  have hinit : t.shared = ⟨initial, [initial], []⟩ := hinit
  refine ⟨?_, ?_, fun i => ?_, .inl ?_⟩
  · rw [hinit]
    exact fun q hq => by cases hq
  · rw [hinit]
    exact ⟨Nat.le_refl _, List.mem_singleton.2 rfl⟩
  · rw [hstart i]
    trivial
  · rw [hinit]
    rfl

/-- Once every execution has finished, the cursor is the maximum of its initial value and all the
sequence numbers; an execution can always go on and goes up with each exchange, which bounds how
many it makes; and one that returns `-1` has met a larger number in the cursor. -/
theorem cursor_eq_top (h : (program initial).machine.Reach t) :
    ((∀ i, (t.pc i).hand = none) → t.shared.cursor = top initial t.shared.seqs) ∧
    (∀ i base lseq n, t.pc i = .exchange base lseq n → base + n ≤ max initial (2 ^ 32 - 1) ∧
      ∃ t', (program initial).machine.step t (i, .go) = some t') ∧
    (∀ i base n, t.pc i = .done base (-1) n → ∃ v ∈ t.shared.written, base < v) := by
  have hI := inv_of_reach h
  refine ⟨fun hdone => ?_, fun i base lseq n hpc => ?_, fun i base n hpc => ?_⟩
  · rcases hI.largest with heq | ⟨i, hi⟩
    · exact heq
    · rw [hdone i] at hi
      cases hi
  · have hi := hI.pcs i
    rw [hpc] at hi
    obtain ⟨-, hgrown, htop, -⟩ := hi
    have hmax : top initial t.shared.seqs ≤ max initial (2 ^ 32 - 1) :=
      top_le (Nat.le_max_left _ _) fun seq hseq =>
        Nat.le_trans (Nat.le_sub_one_of_lt (hI.seqs seq hseq)) (Nat.le_max_right _ _)
    refine ⟨Nat.le_trans hgrown (Nat.le_trans htop hmax), ?_⟩
    exact ⟨_, Option.map_eq_some_iff.2 ⟨_, by rw [hpc]; rfl, rfl⟩⟩
  · have hi := hI.pcs i
    rw [hpc] at hi
    exact hi.2.2 rfl

/-- An execution of 5 over a cursor at 4. -/
theorem cursor_eq_top_one :
    ∃ t, (program 4).machine.Reach t ∧ t.shared.seqs = [5] ∧ t.shared.cursor = top 4 [5] := by
  have h0 : (program 4).machine.Reach ⟨⟨4, [4], []⟩, fun _ => .idle⟩ := .init ⟨rfl, fun _ => rfl⟩
  have h1 : (program 4).machine.Reach
      (Threads.go 0 ⟨4, [4], [5]⟩ (.exchange 5 5 0) ⟨⟨4, [4], []⟩, fun _ => .idle⟩) :=
    .step h0 (a := (0, .call 5)) trivial rfl
  have h2 : (program 4).machine.Reach (Threads.go 0 ⟨5, [5, 4], [5]⟩ (.done 5 0 1)
      (Threads.go 0 ⟨4, [4], [5]⟩ (.exchange 5 5 0) ⟨⟨4, [4], []⟩, fun _ => .idle⟩)) :=
    .step h1 (a := (0, .go)) trivial rfl
  refine ⟨_, h2, rfl, (cursor_eq_top h2).1 fun i => ?_⟩
  by_cases hi : i = 0
  · rw [hi, Threads.pc_go_self]
    rfl
  · rw [Threads.pc_go_ne hi, Threads.pc_go_ne hi]
    rfl

/-- An execution that nobody disturbs is the exchange loop of `set_connection_left_window_cursor`. -/
theorem alone (s : LeftCursor) (seq : Nat) :
    ((s.step (.exchange seq seq 0) .go).bind fun r =>
        if r.2.hand = none then some r else r.1.step r.2 .go).map (fun r => (r.1.cursor, r.2)) =
      some ((ConM.exchangeLoop 2 s.cursor seq).1,
        .done seq (if (ConM.exchangeLoop 2 s.cursor seq).2 ≤ seq then 0 else -1)
          (if s.cursor ≤ seq then 1 else 2)) := by
  rw [ConM.exchangeLoop_two]
  rcases Nat.lt_or_ge seq s.cursor with hlt | hge
  · have hnot := Nat.not_le.2 hlt
    simp [step, hlt, hnot, Pc.hand, Nat.le_of_lt hlt]
  · simp [step, hge, Nat.not_lt.2 hge, Pc.hand]

end inv

end LeftCursor

end Resend.Udp
