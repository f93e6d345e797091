import Resend.Lib.Threads
import Resend.Udp.TransferRange

/-!
# A simple reader under several threads

The compare-exchange of the cursor gives each packet to one thread, which copies it and then counts
the copy. The thread that counts the last copy finds the cursor past the end and the count complete;
`trans_succ` decides which of the threads that find that pushes the message.
-/

namespace Resend.Udp

/-- The fields of the reader that the threads share. `copied` and `counted` are the packets whose
copy is finished and those that `_memcpy_count` counts, `pushed` what was copied at each push. -/
structure SimpleReader where
  leftWindowCursor : Nat
  memcpyCount : Nat
  transSuc : Bool
  copied : Finset Nat
  counted : Finset Nat
  pushed : List (Finset Nat)

namespace SimpleReader

/-- Where a thread is in `_reader_connection_do_network_data`. -/
inductive Pc
  | idle
  | exchange (pos : Nat)
  | copy (pos : Nat)
  | count (pos : Nat)
  | readCursor
  | readCount
  | setSuc
  | push
deriving DecidableEq

/-- A thread takes a packet of the block, or goes on. -/
inductive Op
  | packet (pos : Nat)
  | go

def step (len : Nat) (s : SimpleReader) : Pc → Op → Option (SimpleReader × Pc)
  | .idle, .packet pos =>
    if pos < packetCount len then some (s, if s.transSuc then .idle else .exchange pos) else none
  | .exchange pos, .go =>
    if s.leftWindowCursor = pos * packetMaxDataLength then
      some ({ s with leftWindowCursor := u32 (pos * packetMaxDataLength + packetMaxDataLength) },
        .copy pos)
    else some (s, .idle)
  | .copy pos, .go => some ({ s with copied := insert pos s.copied }, .count pos)
  | .count pos, .go =>
    some ({ s with memcpyCount := s.memcpyCount + 1, counted := insert pos s.counted }, .readCursor)
  | .readCursor, .go => some (s, if s.leftWindowCursor > sub32 len 1 then .readCount else .idle)
  | .readCount, .go =>
    some (s, if s.memcpyCount = sub32 len 1 / packetMaxDataLength + 1 then .setSuc else .idle)
  | .setSuc, .go => some ({ s with transSuc := true }, if s.transSuc then .idle else .push)
  | .push, .go => some ({ s with pushed := s.copied :: s.pushed }, .idle)
  | _, _ => none

/-- A reader of a block of length `len`. -/
def program (len : Nat) : Program SimpleReader Pc Op where
  init s := s = ⟨0, 0, false, ∅, ∅, []⟩
  start := .idle
  step := step len

/-- The thread is between its compare-exchange and the end of the call. -/
def Pc.Won : Pc → Prop
  | .idle | .exchange _ => False
  | _ => True

/-- The thread has packet `pos` to copy or to count. -/
def Pc.Has (pos : Nat) (p : Pc) : Prop := p = .copy pos ∨ p = .count pos

/-- The thread has counted its copy and is looking whether all are there. -/
def Pc.Checks (p : Pc) : Prop := p = .readCursor ∨ p = .readCount ∨ p = .setSuc

/-- The message is pushed at most once, with all copies finished; and it has been when the last
packet is accepted and nobody who won a packet is still at work. -/
structure Pushed (len : Nat) (t : Threads SimpleReader Pc) : Prop where
  once : t.shared.pushed.length ≤ 1
  complete : ∀ c ∈ t.shared.pushed, c = Finset.range (packetCount len)
  finished : (∀ i, ¬ (t.pc i).Won) → len ≤ t.shared.leftWindowCursor → t.shared.pushed.length = 1

section steps
variable {len : Nat} {s s' : SimpleReader} {p p' : Pc} {op : Op}

theorem step_cases (h : s.step len p op = some (s', p')) :
    (∃ pos, p = .idle ∧ pos < packetCount len ∧ s' = s ∧ (p' = .idle ∨ p' = .exchange pos)) ∨
    (∃ pos, p = .exchange pos ∧ s.leftWindowCursor ≠ pos * packetMaxDataLength ∧ s' = s ∧ p' = .idle) ∨
    (∃ pos, p = .exchange pos ∧ s.leftWindowCursor = pos * packetMaxDataLength ∧ p' = .copy pos ∧
      s' = { s with leftWindowCursor := u32 (pos * packetMaxDataLength + packetMaxDataLength) }) ∨
    (∃ pos, p = .copy pos ∧ s' = { s with copied := insert pos s.copied } ∧ p' = .count pos) ∨
    (∃ pos, p = .count pos ∧ p' = .readCursor ∧
      s' = { s with memcpyCount := s.memcpyCount + 1, counted := insert pos s.counted }) ∨
    (p = .readCursor ∧ s' = s ∧ p' = if s.leftWindowCursor > sub32 len 1 then .readCount else .idle) ∨
    (p = .readCount ∧ s' = s ∧ p' = if s.memcpyCount = sub32 len 1 / packetMaxDataLength + 1 then
      .setSuc else .idle) ∨
    (p = .setSuc ∧ s' = { s with transSuc := true } ∧ p' = if s.transSuc then .idle else .push) ∨
    (p = .push ∧ s' = { s with pushed := s.copied :: s.pushed } ∧ p' = .idle) := by
  cases p <;> cases op <;> simp only [step, Option.ite_none_right_eq_some,
    Option.some.injEq, Prod.mk.injEq, reduceCtorEq] at h
  case idle.packet pos =>
    obtain ⟨hpos, rfl, rfl⟩ := h
    refine .inl ⟨pos, rfl, hpos, rfl, ?_⟩
    split
    exacts [.inl rfl, .inr rfl]
  case exchange.go pos =>
    split at h <;> rename_i hcur <;> cases h
    · exact .inr (.inr (.inl ⟨pos, rfl, hcur, rfl, rfl⟩))
    · exact .inr (.inl ⟨pos, rfl, hcur, rfl, rfl⟩)
  case copy.go pos =>
    obtain ⟨rfl, rfl⟩ := h
    exact .inr (.inr (.inr (.inl ⟨pos, rfl, rfl, rfl⟩)))
  case count.go pos =>
    obtain ⟨rfl, rfl⟩ := h
    exact .inr (.inr (.inr (.inr (.inl ⟨pos, rfl, rfl, rfl⟩))))
  case readCursor.go =>
    obtain ⟨rfl, rfl⟩ := h
    exact .inr (.inr (.inr (.inr (.inr (.inl ⟨rfl, rfl, rfl⟩)))))
  case readCount.go =>
    obtain ⟨rfl, rfl⟩ := h
    exact .inr (.inr (.inr (.inr (.inr (.inr (.inl ⟨rfl, rfl, rfl⟩))))))
  case setSuc.go =>
    obtain ⟨rfl, rfl⟩ := h
    exact .inr (.inr (.inr (.inr (.inr (.inr (.inr (.inl ⟨rfl, rfl, rfl⟩)))))))
  case push.go =>
    obtain ⟨rfl, rfl⟩ := h
    exact .inr (.inr (.inr (.inr (.inr (.inr (.inr (.inr ⟨rfl, rfl, rfl⟩)))))))

end steps

/-! ### The invariant -/

/-- What the place of a thread says; `k` packets are accepted. -/
def PcOk (len k : Nat) (s : SimpleReader) : Pc → Prop
  | .exchange pos => pos < packetCount len
  | .copy pos => pos < k ∧ pos ∉ s.copied
  | .count pos => pos < k ∧ pos ∈ s.copied ∧ pos ∉ s.counted
  | .setSuc | .push => s.counted = Finset.range (packetCount len)
  | _ => True

/-- The packets and their counts, with `k` packets accepted. -/
structure Work (len k : Nat) (t : Threads SimpleReader Pc) : Prop where
  cursor : t.shared.leftWindowCursor = k * packetMaxDataLength
  le : k ≤ packetCount len
  counted : ∀ p ∈ t.shared.counted, p ∈ t.shared.copied
  copied : ∀ p ∈ t.shared.copied, p < k
  count : t.shared.memcpyCount = t.shared.counted.card
  pcs : ∀ i, PcOk len k t.shared (t.pc i)
  /-- Every accepted packet is counted, or one thread has it. -/
  each : ∀ p < k, p ∈ t.shared.counted ∨ ∃ i, (t.pc i).Has p
  alone : ∀ p i j, (t.pc i).Has p → (t.pc j).Has p → i = j

/-- Who pushes. -/
structure Pushing (len : Nat) (t : Threads SimpleReader Pc) : Prop where
  /-- Whoever counted the last packet checks. -/
  checks : t.shared.counted = Finset.range (packetCount len) →
    t.shared.transSuc = true ∨ ∃ i, (t.pc i).Checks
  quiet : t.shared.transSuc = false → t.shared.pushed = [] ∧ ∀ i, t.pc i ≠ .push
  pushes : t.shared.transSuc = true → t.shared.pushed.length = 1 ∨ ∃ i, t.pc i = .push
  once : t.shared.pushed = [] ∨ t.shared.pushed.length = 1 ∧ ∀ i, t.pc i ≠ .push
  pusher : ∀ i j, t.pc i = .push → t.pc j = .push → i = j
  complete : ∀ c ∈ t.shared.pushed, c = Finset.range (packetCount len)

section inv
variable {len k : Nat} {t t' : Threads SimpleReader Pc} {i : Nat} {s : SimpleReader} {p : Pc}

theorem Work.full_iff (h : Work len k t) : t.shared.memcpyCount = packetCount len ↔
    t.shared.counted = Finset.range (packetCount len) := by
  have hsub : t.shared.counted ⊆ Finset.range (packetCount len) := fun p hp =>
    Finset.mem_range.2 (Nat.lt_of_lt_of_le (h.copied p (h.counted p hp)) h.le)
  rw [h.count]
  constructor
  · intro hcard
    exact Finset.eq_of_subset_of_card_le hsub (by rw [Finset.card_range, hcard])
  · intro heq
    rw [heq, Finset.card_range]

theorem Work.of_full (h : Work len k t) (hfull : t.shared.counted = Finset.range (packetCount len)) :
    t.shared.copied = Finset.range (packetCount len) ∧ (0 < packetCount len → k = packetCount len) := by
  have hmem : ∀ p < packetCount len, p ∈ t.shared.copied := fun p hp =>
    h.counted p (by rw [hfull]; exact Finset.mem_range.2 hp)
  constructor
  · ext p
    rw [Finset.mem_range]
    exact ⟨fun hp => Nat.lt_of_lt_of_le (h.copied p hp) h.le, hmem p⟩
  · intro hpos
    have := h.copied (packetCount len - 1) (hmem _ (Nat.sub_one_lt_of_lt hpos))
    have := h.le
    omega

theorem Work.move (h : Work len k t) (hcur : s.leftWindowCursor = t.shared.leftWindowCursor)
    (hcount : s.memcpyCount = t.shared.memcpyCount) (hcopied : s.copied = t.shared.copied)
    (hcounted : s.counted = t.shared.counted) (hp : PcOk len k s p) (hfrom : ∀ pos, ¬ (t.pc i).Has pos)
    (hto : ∀ pos, ¬ p.Has pos) : Work len k (t.go i s p) where
  cursor := hcur.trans h.cursor
  le := h.le
  counted q hq := by
    rw [Threads.shared_go, hcounted] at hq
    rw [Threads.shared_go, hcopied]
    exact h.counted q hq
  copied q hq := h.copied q (by rwa [Threads.shared_go, hcopied] at hq)
  count := by rw [Threads.shared_go, hcount, hcounted, h.count]
  pcs := Threads.forall_pc_go.2 ⟨hp, fun j _ => by
    have := h.pcs j
    cases hj : t.pc j <;> rw [hj] at this <;>
      simp only [PcOk, Threads.shared_go, hcopied, hcounted] at this ⊢ <;> exact this⟩
  each q hq := by
    rw [Threads.shared_go, hcounted]
    exact (h.each q hq).imp id fun hex => Threads.exists_pc_go_of (P := Pc.Has q) hex fun hi =>
      absurd hi (hfrom q)
  alone q := Threads.unique_go (P := Pc.Has q) (h.alone q) fun hq => absurd hq (hto q)

theorem Work.accept (h : Work len k t) (hlen : len ≤ smallFileMaxSize) (hpc : t.pc i = .exchange k)
    (hk : k < packetCount len) : Work len (k + 1) (t.go i
      { t.shared with leftWindowCursor := u32 (k * packetMaxDataLength + packetMaxDataLength) }
        (.copy k)) := by
  have hnew : k ∉ t.shared.copied := fun hk => Nat.lt_irrefl _ (h.copied k hk)
  have hcursor : u32 (k * packetMaxDataLength + packetMaxDataLength) =
      (k + 1) * packetMaxDataLength := by
    rw [u32_of_lt, Nat.add_mul, Nat.one_mul]
    have hstart : k * packetMaxDataLength < smallFileMaxSize :=
      Nat.lt_of_lt_of_le (lt_packetCount_iff.1 hk) hlen
    exact Nat.lt_trans (Nat.add_lt_add_right hstart _) (by decide)
  have hnone : ∀ j, ¬ (t.pc j).Has k := fun j hj => by
    have := h.pcs j
    rcases hj with hj | hj <;> rw [hj] at this <;> exact Nat.lt_irrefl _ this.1
  refine ⟨hcursor, hk, h.counted, fun p hp => Nat.lt_succ_of_lt (h.copied p hp), h.count,
    Threads.forall_pc_go.2 ⟨⟨Nat.lt_succ_self k, hnew⟩, fun j _ => ?_⟩, fun q hq => ?_, fun q =>
      Threads.unique_go (P := Pc.Has q) (h.alone q) fun hq j _ hj => ?_⟩
  · have := h.pcs j
    cases hj : t.pc j <;> rw [hj] at this
    case copy pos => exact ⟨Nat.lt_succ_of_lt this.1, this.2⟩
    case count pos => exact ⟨Nat.lt_succ_of_lt this.1, this.2⟩
    all_goals exact this
  · rcases Nat.lt_succ_iff_lt_or_eq.1 hq with hq | rfl
    · exact (h.each q hq).imp id fun hex => Threads.exists_pc_go_of (P := Pc.Has q) hex fun hi => by
        rw [hpc] at hi
        rcases hi with hi | hi <;> cases hi
    · exact .inr ⟨i, by rw [Threads.pc_go_self]; exact .inl rfl⟩
  · rcases hq with hq | hq <;> cases hq
    exact hnone j hj

theorem Work.copy (h : Work len k t) {pos : Nat} (hpc : t.pc i = .copy pos) :
    Work len k (t.go i { t.shared with copied := insert pos t.shared.copied } (.count pos)) := by
  have hin := h.pcs i
  rw [hpc] at hin
  obtain ⟨hlt, hnot⟩ := hin
  have hpos : (t.pc i).Has pos := .inl hpc
  refine ⟨h.cursor, h.le, fun p hp => Finset.mem_insert_of_mem (h.counted p hp),
    fun p hp => ?_, h.count, Threads.forall_pc_go.2
      ⟨⟨hlt, Finset.mem_insert_self _ _, fun hc => hnot (h.counted pos hc)⟩, fun j hj => ?_⟩,
    fun q hq => ?_, fun q => Threads.unique_go (P := Pc.Has q) (h.alone q) fun hq j hj hj' => ?_⟩
  · rcases Finset.mem_insert.1 hp with rfl | hp
    exacts [hlt, h.copied p hp]
  · have := h.pcs j
    cases hpcj : t.pc j <;> rw [hpcj] at this
    case copy q =>
      refine ⟨this.1, fun hq => ?_⟩
      rcases Finset.mem_insert.1 hq with rfl | hq
      · exact hj (h.alone q j i (.inl hpcj) hpos)
      · exact this.2 hq
    case count q => exact ⟨this.1, Finset.mem_insert_of_mem this.2.1, this.2.2⟩
    all_goals exact this
  · refine (h.each q hq).imp id fun hex => Threads.exists_pc_go_of (P := Pc.Has q) hex fun hi => ?_
    rw [hpc] at hi
    rcases hi with hi | hi <;> cases hi
    exact .inr rfl
  · rcases hq with hq | hq <;> cases hq
    exact hj (h.alone pos j i hj' hpos)

theorem Work.counts (h : Work len k t) {pos : Nat} (hpc : t.pc i = .count pos) :
    Work len k (t.go i { t.shared with
      memcpyCount := t.shared.memcpyCount + 1, counted := insert pos t.shared.counted }
      .readCursor) := by
  have hin := h.pcs i
  rw [hpc] at hin
  obtain ⟨hlt, hcopied, hnot⟩ := hin
  have hpos : (t.pc i).Has pos := .inr hpc
  refine ⟨h.cursor, h.le, fun p hp => ?_, h.copied, ?_,
    Threads.forall_pc_go.2 ⟨trivial, fun j hj => ?_⟩, fun q hq => ?_,
    fun q => Threads.unique_go (P := Pc.Has q) (h.alone q) fun hq => ?_⟩
  · rcases Finset.mem_insert.1 hp with rfl | hp
    exacts [hcopied, h.counted p hp]
  · show t.shared.memcpyCount + 1 = (insert pos t.shared.counted).card
    rw [Finset.card_insert_of_notMem hnot, h.count]
  · have := h.pcs j
    cases hpcj : t.pc j <;> rw [hpcj] at this
    case count q =>
      refine ⟨this.1, this.2.1, fun hq => ?_⟩
      rcases Finset.mem_insert.1 hq with rfl | hq
      · exact hj (h.alone q j i (.inr hpcj) hpos)
      · exact this.2.2 hq
    case setSuc | push =>
      -- all were counted before, this one as well
      have hfull : t.shared.counted = Finset.range (packetCount len) := this
      exact absurd (by rw [hfull]; exact Finset.mem_range.2 (Nat.lt_of_lt_of_le hlt h.le)) hnot
    all_goals exact this
  · by_cases hqp : q = pos
    · exact .inl (hqp ▸ Finset.mem_insert_self _ _)
    · refine (h.each q hq).imp (Finset.mem_insert_of_mem ·) fun hex =>
        Threads.exists_pc_go_of (P := Pc.Has q) hex fun hi => ?_
      rw [hpc] at hi
      rcases hi with hi | hi <;> cases hi
      exact absurd rfl hqp
  · rcases hq with hq | hq <;> cases hq

theorem Pushing.move (h : Pushing len t) (hsuc : s.transSuc = t.shared.transSuc)
    (hpushed : s.pushed = t.shared.pushed) (hfrom : t.pc i ≠ .push) (hto : p ≠ .push)
    (hchecks : s.counted = Finset.range (packetCount len) → s.transSuc = true ∨ p.Checks ∨
      t.shared.counted = Finset.range (packetCount len) ∧ ¬ (t.pc i).Checks) :
    Pushing len (t.go i s p) where
  checks hfull := by
    rcases hchecks hfull with hs | hp | ⟨hfull, hnot⟩
    · exact .inl hs
    · exact .inr ⟨i, by rw [Threads.pc_go_self]; exact hp⟩
    · rw [Threads.shared_go, hsuc]
      exact (h.checks hfull).imp id fun hex =>
        Threads.exists_pc_go_of (P := Pc.Checks) hex fun hi => absurd hi hnot
  quiet hs := by
    rw [Threads.shared_go, hsuc] at hs
    rw [Threads.shared_go, hpushed]
    exact ⟨(h.quiet hs).1, (Threads.forall_pc_go (P := fun _ p => p ≠ Pc.push)).2 ⟨hto,
      fun j _ => (h.quiet hs).2 j⟩⟩
  pushes hs := by
    rw [Threads.shared_go, hsuc] at hs
    rw [Threads.shared_go, hpushed]
    exact (h.pushes hs).imp id fun hex =>
      Threads.exists_pc_go_of (P := fun p => p = Pc.push) hex fun hi => absurd hi hfrom
  once := by
    rw [Threads.shared_go, hpushed]
    exact h.once.imp id fun ho => ⟨ho.1,
      (Threads.forall_pc_go (P := fun _ p => p ≠ Pc.push)).2 ⟨hto, fun j _ => ho.2 j⟩⟩
  pusher := Threads.unique_go (P := fun p => p = Pc.push) h.pusher fun hp => absurd hp hto
  complete := by
    rw [Threads.shared_go, hpushed]
    exact h.complete

/-- `trans_succ` is set; the first to do so goes on to push. -/
theorem Pushing.setSuc (h : Pushing len t) (hpc : t.pc i = .setSuc) :
    Pushing len (t.go i { t.shared with transSuc := true } (if t.shared.transSuc then .idle
      else .push)) := by
  cases hsuc : t.shared.transSuc with
  | true => exact h.move hsuc.symm rfl (by simp [hpc]) (by simp) fun _ => .inl rfl
  | false =>
    obtain ⟨hnil, hnone⟩ := h.quiet hsuc
    exact {
      checks := fun _ => .inl rfl
      quiet := fun hs => by cases hs
      pushes := fun _ => .inr ⟨i, Threads.pc_go_self ..⟩
      once := .inl hnil
      pusher := Threads.unique_go (P := fun p => p = Pc.push) h.pusher fun _ j _ hj => hnone j hj
      complete := h.complete }

theorem Pushing.push (h : Pushing len t) (hpc : t.pc i = .push)
    (hcopied : t.shared.copied = Finset.range (packetCount len)) :
    Pushing len (t.go i { t.shared with pushed := t.shared.copied :: t.shared.pushed } .idle) := by
  have hsuc : t.shared.transSuc = true := by
    rw [← Bool.not_eq_false]
    exact fun hs => (h.quiet hs).2 i hpc
  have hnil : t.shared.pushed = [] := h.once.resolve_right fun ho => ho.2 i hpc
  have hlength : (t.shared.copied :: t.shared.pushed).length = 1 := by rw [hnil]; rfl
  have hnone : ∀ j, (t.go i { t.shared with pushed := t.shared.copied :: t.shared.pushed } .idle).pc
      j ≠ Pc.push := by
    refine (Threads.forall_pc_go (P := fun _ p => p ≠ Pc.push)).2 ⟨by simp, fun j hj hjp => hj ?_⟩
    exact h.pusher j i hjp hpc
  exact {
    checks := fun _ => .inl hsuc
    quiet := fun hs => absurd (hsuc.symm.trans hs) (by simp)
    pushes := fun _ => .inl hlength
    once := .inr ⟨hlength, hnone⟩
    pusher := fun j _ hj => absurd hj (hnone j)
    complete := fun c hc => by
      rcases List.mem_cons.1 hc with rfl | hc
      exacts [hcopied, h.complete c hc] }

/-- The cursor and the count say that all is there when all is. -/
theorem Work.passes (h : Work len k t) (hpos : 0 < len) (hlen : len ≤ smallFileMaxSize)
    (hfull : t.shared.counted = Finset.range (packetCount len)) :
    t.shared.leftWindowCursor > sub32 len 1 ∧
      t.shared.memcpyCount = sub32 len 1 / packetMaxDataLength + 1 := by
  have hlast : sub32 len 1 = len - 1 := sub32_of_le (Nat.lt_of_le_of_lt hlen (by decide)) hpos
  have hcount : 0 < packetCount len := lt_packetCount_iff.2 (by rw [Nat.zero_mul]; exact hpos)
  constructor
  · rw [h.cursor, (h.of_full hfull).2 hcount, hlast]
    exact Nat.lt_of_lt_of_le (Nat.sub_one_lt_of_lt hpos) packetCount_le
  · rw [h.full_iff.2 hfull, hlast]
    simp only [packetCount, packetMaxDataLength]
    omega

theorem count_eq (hpos : 0 < len) (hlen : len ≤ smallFileMaxSize) :
    sub32 len 1 / packetMaxDataLength + 1 = packetCount len := by
  rw [sub32_of_le (Nat.lt_of_le_of_lt hlen (by decide)) hpos]
  simp only [packetCount, packetMaxDataLength]
  omega

theorem inv_step (hpos : 0 < len) (hlen : len ≤ smallFileMaxSize) (h : Work len k t)
    (hp : Pushing len t) {a : Nat × Op} (hs : (program len).machine.step t a = some t') :
    ∃ k, Work len k t' ∧ Pushing len t' := by
  obtain ⟨i, op⟩ := a
  obtain ⟨s, p, hstep, rfl⟩ := Program.machine_step hs
  have hin := h.pcs i
  have hsame : ∀ p, (¬ (t.pc i).Checks ∨ p.Checks) → t.pc i ≠ .push → p ≠ .push →
      Pushing len (t.go i t.shared p) :=
    fun p hchecks hfrom hto => hp.move rfl rfl hfrom hto fun hfull =>
      .inr (hchecks.symm.imp id fun hnot => ⟨hfull, hnot⟩)
  obtain ⟨pos, hpc, hpos', rfl, hp'⟩ | ⟨pos, hpc, hcur, rfl, rfl⟩ |
      ⟨pos, hpc, hcur, rfl, rfl⟩ | ⟨pos, hpc, rfl, rfl⟩ |
    ⟨pos, hpc, rfl, rfl⟩ | ⟨hpc, rfl, rfl⟩ | ⟨hpc, rfl, rfl⟩ | ⟨hpc, rfl, rfl⟩ |
        ⟨hpc, rfl, rfl⟩ := step_cases hstep
  · -- a packet comes in
    refine ⟨k, h.move rfl rfl rfl rfl ?_ (by simp [hpc, Pc.Has]) ?_,
      hsame _ (.inl (by simp [hpc, Pc.Checks])) (by simp [hpc]) ?_⟩
    all_goals rcases hp' with rfl | rfl <;> simp [PcOk, Pc.Has, hpos']
  · -- it is not the next one
    exact ⟨k, h.move rfl rfl rfl rfl trivial (by simp [hpc, Pc.Has]) (by simp [Pc.Has]),
      hsame _ (.inl (by simp [hpc, Pc.Checks])) (by simp [hpc]) (by simp)⟩
  · rw [hpc] at hin
    have hk : pos = k := Nat.eq_of_mul_eq_mul_right (show 0 < packetMaxDataLength by decide)
      (hcur.symm.trans h.cursor)
    subst hk
    exact ⟨pos + 1, h.accept hlen hpc hin, hp.move rfl rfl (by simp [hpc]) (by simp) fun hfull =>
      .inr (.inr ⟨hfull, by simp [hpc, Pc.Checks]⟩)⟩
  · exact ⟨k, h.copy hpc, hp.move rfl rfl (by simp [hpc]) (by simp) fun hfull =>
      .inr (.inr ⟨hfull, by simp [hpc, Pc.Checks]⟩)⟩
  · exact ⟨k, h.counts hpc, hp.move rfl rfl (by simp [hpc]) (by simp) fun _ => .inr (.inl (.inl rfl))⟩
  · refine ⟨k, h.move rfl rfl rfl rfl ?_ (by simp [hpc, Pc.Has]) ?_,
      hp.move rfl rfl (by simp [hpc]) ?_ fun hfull => ?_⟩
    · split <;> trivial
    · intro q
      split <;> simp [Pc.Has]
    · split <;> simp
    · rw [if_pos (h.passes hpos hlen hfull).1]
      exact .inr (.inl (.inr (.inl rfl)))
  · refine ⟨k, h.move rfl rfl rfl rfl ?_ (by simp [hpc, Pc.Has]) ?_,
      hp.move rfl rfl (by simp [hpc]) ?_ fun hfull => ?_⟩
    · split
      · rename_i hcount
        exact h.full_iff.1 (hcount.trans (count_eq hpos hlen))
      · trivial
    · intro q
      split <;> simp [Pc.Has]
    · split <;> simp
    · rw [if_pos (h.passes hpos hlen hfull).2]
      exact .inr (.inl (.inr (.inr rfl)))
  · rw [hpc] at hin
    refine ⟨k, h.move rfl rfl rfl rfl ?_ (by simp [hpc, Pc.Has]) ?_, hp.setSuc hpc⟩
    · split
      exacts [trivial, hin]
    · intro q
      split <;> simp [Pc.Has]
  · rw [hpc] at hin
    exact ⟨k, h.move rfl rfl rfl rfl trivial (by simp [hpc, Pc.Has]) (by simp [Pc.Has]),
      hp.push hpc (h.of_full hin).1⟩

theorem inv_of_reach (hpos : 0 < len) (hlen : len ≤ smallFileMaxSize)
    (h : (program len).machine.Reach t) :
    ∃ k, Work len k t ∧ Pushing len t := by
  refine h.invariant (I := fun t => ∃ k, Work len k t ∧ Pushing len t) ?_ fun t a t' hI _ hs => ?_
  · rintro ⟨s, pc⟩ ⟨hinit, hstart⟩
    have hs : s = ⟨0, 0, false, ∅, ∅, []⟩ := hinit
    have hpc : pc = fun _ => .idle := funext hstart
    subst hs hpc
    have hcount : 0 < packetCount len := lt_packetCount_iff.2 (by rw [Nat.zero_mul]; exact hpos)
    have hnone : ∀ j : Nat, ¬ (Pc.idle).Has j := by simp [Pc.Has]
    refine ⟨0, ⟨rfl, Nat.zero_le _, by simp, by simp, rfl, fun _ => trivial, by simp,
      fun q _ _ hq => absurd hq (hnone q)⟩,
      ⟨fun hfull => ?_, fun _ => ⟨rfl, by simp⟩, by simp, .inl rfl, by simp, by simp⟩⟩
    exact absurd (Finset.range_eq_empty_iff.1 hfull.symm) (Nat.ne_of_gt hcount)
  · obtain ⟨k, hw, hp⟩ := hI
    exact inv_step hpos hlen hw hp hs

/-- Whatever the interleaving: the message is pushed at most once and complete, and it has been when
everybody is done with an accepted last packet. -/
theorem pushed_of_reach (hpos : 0 < len) (hlen : len ≤ smallFileMaxSize)
    (h : (program len).machine.Reach t) :
    Pushed len t := by
  obtain ⟨k, hw, hp⟩ := inv_of_reach hpos hlen h
  refine ⟨?_, hp.complete, fun hnone hlast => ?_⟩
  · rcases hp.once with hnil | ho
    · rw [hnil]
      exact Nat.zero_le _
    · exact Nat.le_of_eq ho.1
  · have hk : k = packetCount len := by
      refine Nat.le_antisymm hw.le (Nat.le_of_not_lt fun hlt => ?_)
      rw [hw.cursor] at hlast
      exact absurd (lt_packetCount_iff.1 hlt) (Nat.not_lt.2 hlast)
    have hfull : t.shared.counted = Finset.range (packetCount len) := by
      refine Finset.Subset.antisymm (fun p hpm => ?_) fun p hpm => ?_
      · exact Finset.mem_range.2 (hk ▸ hw.copied p (hw.counted p hpm))
      · refine (hw.each p (hk ▸ Finset.mem_range.1 hpm)).resolve_right ?_
        rintro ⟨i, hi | hi⟩ <;> exact hnone i (by rw [hi]; trivial)
    have hsuc : t.shared.transSuc = true := by
      refine (hp.checks hfull).resolve_right ?_
      rintro ⟨i, hi | hi | hi⟩ <;> exact hnone i (by rw [hi]; trivial)
    refine (hp.pushes hsuc).resolve_right ?_
    rintro ⟨i, hi⟩
    exact hnone i (by rw [hi]; trivial)

end inv

/-- A block of one packet, from its arrival to the push. -/
theorem pushed_of_reach_one :
    ∃ t, (program 1).machine.Reach t ∧ t.shared.pushed = [{0}] ∧ Pushed 1 t := by
  have hrun : ((program 1).machine.run ⟨⟨0, 0, false, ∅, ∅, []⟩, fun _ => .idle⟩
      ((0, .packet 0) :: List.replicate 7 (0, .go))).map (·.shared.pushed) = some [{0}] := by
    decide +kernel
  obtain ⟨t, ht, hpushed⟩ := Option.map_eq_some_iff.1 hrun
  have hinit : (program 1).machine.init ⟨⟨0, 0, false, ∅, ∅, []⟩, fun _ => .idle⟩ := ⟨rfl, fun _ => rfl⟩
  have hreach := Machine.ReachUnder.run (M := (program 1).machine) (.init hinit) ht
  exact ⟨t, hreach, hpushed, pushed_of_reach (by decide) (by decide) hreach⟩

/-! ### One thread alone -/

/-- A thread at `p` that nobody disturbs, for at most `n` steps. -/
def finish (len : Nat) : Nat → SimpleReader → Pc → SimpleReader
  | 0, s, _ => s
  | n + 1, s, p =>
    match s.step len p .go with
    | some r => finish len n r.1 r.2
    | none => s

/-- What the threads share of a connection. -/
def ofConnection (c : Connection) (copied counted : Finset Nat) (pushed : List (Finset Nat)) :
    SimpleReader :=
  ⟨c.leftWindowCursor, c.memcpyCount, c.has Connection.transSucBit, copied, counted, pushed⟩

theorem finish_go {len n : Nat} {s s' : SimpleReader} {p p' : Pc}
    (h : s.step len p .go = some (s', p')) :
    finish len (n + 1) s p = finish len n s' p' := by
  rw [finish, h]

theorem finish_idle (len n : Nat) (s : SimpleReader) : finish len n s .idle = s := by
  cases n <;> rfl

/-- The call of a thread whose packet is the next one, after its copy is counted. -/
def checked (len : Nat) (s : SimpleReader) : SimpleReader :=
  if s.leftWindowCursor > sub32 len 1 ∧ s.memcpyCount = sub32 len 1 / packetMaxDataLength + 1 then
    { s with transSuc := true, pushed := if s.transSuc then s.pushed else s.copied :: s.pushed }
  else s

theorem finish_readCursor (len : Nat) (s : SimpleReader) :
    finish len 4 s .readCursor = checked len s := by
  rw [finish_go (n := 3) rfl, checked]
  by_cases hlast : s.leftWindowCursor > sub32 len 1
  · rw [if_pos hlast, finish_go (n := 2) rfl]
    by_cases hcount : s.memcpyCount = sub32 len 1 / packetMaxDataLength + 1
    · rw [if_pos hcount, if_pos ⟨hlast, hcount⟩, finish_go (n := 1) rfl]
      cases hsuc : s.transSuc with
      | true => exact finish_idle ..
      | false => exact (finish_go (n := 0) rfl).trans (finish_idle ..)
    · rw [if_neg hcount, if_neg fun h => hcount h.2, finish_idle]
  · rw [if_neg hlast, if_neg fun h => hlast h.1, finish_idle]

theorem finish_exchange (len pos : Nat) (s : SimpleReader) : finish len 7 s (.exchange pos) =
    if s.leftWindowCursor = pos * packetMaxDataLength then checked len { s with
      leftWindowCursor := u32 (pos * packetMaxDataLength + packetMaxDataLength),
      copied := insert pos s.copied,
      memcpyCount := s.memcpyCount + 1, counted := insert pos s.counted }
    else s := by
  by_cases hcur : s.leftWindowCursor = pos * packetMaxDataLength
  · rw [if_pos hcur, finish_go (n := 6) (by rw [step, if_pos hcur]),
      finish_go (n := 5) rfl, finish_go (n := 4) rfl, finish_readCursor]
  · rw [if_neg hcur, finish_go (n := 6) (by rw [step, if_neg hcur]), finish_idle]

section handler
open Handler ConM Connection

/-- A push. -/
def pushes : Effect → Bool
  | .pushMsg .. => true
  | _ => false

/-- A run of the handler ends in `c'` with the effects `es`, and a thread in `s`, with `n` pushes
before. -/
def Agrees (s : SimpleReader) (n : Nat) (c' : Connection) (es : List Effect) : Prop :=
  s.leftWindowCursor = c'.leftWindowCursor ∧ s.memcpyCount = c'.memcpyCount ∧
    s.transSuc = c'.has transSucBit ∧ s.pushed.length = n + es.countP pushes

theorem readerCheckComplete_agrees (c : Connection) (copied counted : Finset Nat)
    (pushed : List (Finset Nat)) :
    wp SimpleConnection.readerCheckComplete (fun _ c' es =>
      Agrees (checked c.transmitBufLength (ofConnection c copied counted pushed))
        pushed.length c' es) c := by
  obtain ⟨s, hs⟩ : ∃ s, ofConnection c copied counted pushed = s := ⟨_, rfl⟩
  have hcursor : s.leftWindowCursor = c.leftWindowCursor := by rw [← hs]; rfl
  have hcount : s.memcpyCount = c.memcpyCount := by rw [← hs]; rfl
  have hbit : s.transSuc = c.has transSucBit := by rw [← hs]; rfl
  have hpushed : s.pushed = pushed := by rw [← hs]; rfl
  rw [SimpleConnection.readerCheckComplete, wp_bind, wp_get, wp_when, hs, checked, hcursor, hcount]
  split
  · rw [wp_bind, wp_testAndSet (by decide), wp_when]
    cases hsuc : c.has transSucBit with
    | true =>
      rw [if_neg (by simp), hbit, hsuc, if_pos rfl, hpushed]
      exact ⟨rfl, rfl, by simp, rfl⟩
    | false =>
      rw [if_pos (by simp), wp_bind, wp_setTransResultCode, hbit, hsuc, if_neg (by simp), hpushed]
      refine ⟨rfl, rfl, ?_, rfl⟩
      show true = ((c.status.testAndSet transSucBit).2).bit transSucBit
      simp
  · exact ⟨hcursor, hcount, hbit, congrArg List.length hpushed⟩

/-- From where a packet finds it, a thread alone does what the handler does. -/
theorem finish_agrees {c : Connection} (hstop : c.has forceStopBit = false) (pos sendTime : Nat)
    (data : List UInt8) (copied counted : Finset Nat) (pushed : List (Finset Nat)) :
    wp (SimpleConnection.readerConnectionDoNetworkData (pos * packetMaxDataLength)
      sendTime data data.length)
      (fun _ c' es => Agrees (finish c.transmitBufLength 7 (ofConnection c copied counted pushed)
        (if c.has transSucBit then .idle else .exchange pos)) pushed.length c' es) c := by
  rw [SimpleConnection.readerConnectionDoNetworkData, wp_bind, wp_bitTest (by decide), wp_bind,
    wp_bitTest (by decide), wp_ite]
  cases hsuc : c.has transSucBit with
  | true =>
    rw [if_pos (by simp), if_pos rfl, finish_idle, SimpleConnection.readerAnswerStopped, wp_bind,
      wp_get, wp_ite]
    split <;> exact ⟨rfl, rfl, rfl, rfl⟩
  | false =>
    rw [if_neg (by simp [hstop]), if_neg (by simp), finish_exchange, wp_bind,
      wp_increaseRunningCount, wp_bind, wp_get, wp_bind, wp_when]
    by_cases hcur : c.leftWindowCursor = pos * packetMaxDataLength
    · have hleft : (ofConnection c copied counted pushed).leftWindowCursor =
          pos * packetMaxDataLength := hcur
      rw [if_pos hcur, if_pos hleft, wp_bind, wp_modify, wp_bind, copyData, wp_bind, wp_modify,
        wp_emit, wp_bind, wp_modify]
      refine wp_mono _ (readerCheckComplete_agrees _ (insert pos copied)
        (insert pos counted) pushed) fun _ c₁ es₁ h1 => ?_
      rw [wp_bind, wp_get, wp_sendDatagram]
      refine ⟨h1.1, h1.2.1, h1.2.2.1, h1.2.2.2.trans ?_⟩
      simp [pushes, List.countP_append]
    · rw [if_neg hcur, if_neg (show ¬ (ofConnection c copied counted pushed).leftWindowCursor =
        _ from hcur), wp_bind, wp_get, wp_sendDatagram]
      exact ⟨rfl, rfl, rfl, rfl⟩

end handler

end SimpleReader

end Resend.Udp
