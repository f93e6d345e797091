import Resend.Lib.Machine
import Resend.Udp.AckInfoCollector

/-!
# Worker and timer threads racing on one ack collector

Every atomic operation of `set` and `get_next_ack` is one step, and any number of calls interleave.
The bit of position `p` is also the bit of `p + 3072`, and clearing it and advancing `lastAckPos`
are two steps: a bit stored for `p` after it was cleared there is later read as packet `p + 3072`.
`NoFalseAck` holds in the runs without such a late store (`Timely`).
-/

namespace Resend.Udp.AckRace

/-- Where a call of `_get_next_ack` stands. -/
inductive Scan
  | load
  | reset (start : Nat)
  | cas (start : Nat)
  | result
  | kind (seq : Nat)

/-- Where a thread stands, with its locals: `set*` in `set(seq, recv_time)`, `get*` in
`get_next_ack`. -/
inductive Pc
  | idle
  | setLoadMax (seq recvTime : Nat)
  | setStoreMax (seq recvTime : Nat)
  | setLow (seq recvTime : Nat)
  | setHigh (seq recvTime : Nat)
  | setScan (seq recvTime : Nat) (g : Scan)
  | setHighAgain (seq recvTime : Nat)
  | setAckTime (seq recvTime : Nat)
  | setRecvTime (seq recvTime : Nat)
  | setBit (seq recvTime : Nat)
  | getAckTime
  | getRecvTime
  | getScan (ackTime : Nat) (g : Scan)

/-- The collector, the threads, the positions whose bit some `set` call stored and the ack values
`get_next_ack` calls have returned. -/
structure State where
  col : AckInfoCollector
  pcs : Nat → Pc
  stored : List Nat
  acks : List Nat

inductive Act
  | callSet (i seq recvTime : Nat)
  | callGet (i : Nat)
  | step (i : Nat)

/-- One atomic operation of `_get_next_ack`; `.inr seq` is its return. -/
def scanStep (c : AckInfoCollector) : Scan → AckInfoCollector × (Scan ⊕ Nat)
  | .load => (c, .inl (.reset c.lastAckPos))
  | .reset start =>
    let r := c.bitTestAndReset (start % maxBitNum)
    (r.2, .inl (if r.1 = 0 then .result else .cas start))
  | .cas start =>
    (if c.lastAckPos = start then { c with lastAckPos := start + 1 } else c, .inl .load)
  | .result => (c, .inl (.kind (u32 (c.lastAckPos * packetMaxDataLength))))
  | .kind seq => (c, .inr seq)

namespace State

def goto (s : State) (i : Nat) (pc : Pc) : State := { s with pcs := Function.update s.pcs i pc }

/-- One atomic operation of thread `i`. -/
def threadStep (s : State) (i : Nat) : Option State :=
  match s.pcs i with
  | .idle => none
  | .setLoadMax seq t =>
    some (s.goto i (if seq > s.col.maxSeq then .setStoreMax seq t else .setLow seq t))
  | .setStoreMax seq t => some ({ s with col := { s.col with maxSeq := seq } }.goto i (.setLow seq t))
  | .setLow seq t =>
    some (s.goto i (if seq / packetMaxDataLength < s.col.lastAckPos then .idle else .setHigh seq t))
  | .setHigh seq t =>
    some (s.goto i (if seq / packetMaxDataLength ≥ s.col.lastAckPos + maxBitNum then
      .setScan seq t .load
      else .setAckTime seq t))
  | .setScan seq t g =>
    let r := scanStep s.col g
    some ({ s with col := r.1 }.goto i
      (match r.2 with | .inl g' => .setScan seq t g' | .inr _ => .setHighAgain seq t))
  | .setHighAgain seq t =>
    some (s.goto i (if seq / packetMaxDataLength ≥ s.col.lastAckPos + maxBitNum then .idle
      else .setAckTime seq t))
  | .setAckTime seq t =>
    some ({ s with col := { s.col with
      ackTime := if s.col.ackTime = 0 then t else s.col.ackTime } }.goto i (.setRecvTime seq t))
  | .setRecvTime seq t =>
    some ({ s with col := { s.col with lastRecvTime := t } }.goto i (.setBit seq t))
  | .setBit seq _ =>
    let inpos := seq / packetMaxDataLength
    some ({ s with
      col := (s.col.bitTestAndSet (inpos % maxBitNum)).2,
      stored := inpos :: s.stored }.goto i .idle)
  | .getAckTime =>
    some ({ s with col := { s.col with ackTime := 0 } }.goto i
      (if s.col.ackTime = 0 then .getRecvTime else .getScan s.col.ackTime .load))
  | .getRecvTime => some (s.goto i (.getScan s.col.lastRecvTime .load))
  | .getScan a g =>
    match scanStep s.col g with
    | (c, .inl g') => some ({ s with col := c }.goto i (.getScan a g'))
    | (c, .inr seq) => some ({ s with col := c, acks := seq :: s.acks }.goto i .idle)

end State

/-- Any thread may call `set` or `get_next_ack` when it is in neither. -/
def machine : Machine State Act where
  init s := s = ⟨.zero, fun _ => .idle, [], []⟩
  step s
    | .callSet i seq t =>
      match s.pcs i with
      | .idle => if seq < 2 ^ 32 then some (s.goto i (.setLoadMax seq t)) else none
      | _ => none
    | .callGet i =>
      match s.pcs i with
      | .idle => some (s.goto i .getAckTime)
      | _ => none
    | .step i => s.threadStep i

/-- Every position below a returned ack value was stored by a `set` call. -/
def NoFalseAck (s : State) : Prop :=
  ∀ a ∈ s.acks, ∀ p, p * packetMaxDataLength < a → p ∈ s.stored

/-- The `_get_next_ack` call a thread is in. -/
def Pc.scan : Pc → Option Scan
  | .setScan _ _ g => some g
  | .getScan _ g => some g
  | _ => none

/-- A `set` call does not store its bit for a position that `lastAckPos` has passed, nor for one
whose bit a `get_next_ack` has cleared but not yet passed. -/
def Timely (s : State) : Act → Prop
  | .step i => ∀ seq t, s.pcs i = .setBit seq t → s.col.lastAckPos ≤ seq / packetMaxDataLength ∧
      ∀ j, (s.pcs j).scan ≠ some (.cas (seq / packetMaxDataLength))
  | _ => True

/-! ### The invariant -/

section inv
variable {col col' : AckInfoCollector} {stored stored' : List Nat} {s s' : State} {i : Nat} {pc : Pc}

/-- A pending compare-exchange at `lastAckPos` has its bit cleared and its position stored. -/
def ScanOk (col : AckInfoCollector) (stored : List Nat) : Scan → Prop
  | .reset start => start ≤ col.lastAckPos
  | .cas start => start < col.lastAckPos ∨
      start = col.lastAckPos ∧ start ∈ stored ∧ bitOf col.bitmap (start % maxBitNum) = false
  | .kind seq => ∀ p, p * packetMaxDataLength < seq → p ∈ stored
  | _ => True

def PcOk (col : AckInfoCollector) (stored : List Nat) : Pc → Prop
  | .setScan _ _ g => ScanOk col stored g
  | .getScan _ g => ScanOk col stored g
  | .setAckTime seq _ => seq / packetMaxDataLength < col.lastAckPos + maxBitNum
  | .setRecvTime seq _ => seq / packetMaxDataLength < col.lastAckPos + maxBitNum
  | .setBit seq _ => seq / packetMaxDataLength < col.lastAckPos + maxBitNum
  | _ => True

structure Inv (s : State) : Prop where
  sound : Window.Sound maxBitNum (bitOf s.col.bitmap) s.col.lastAckPos (· ∈ s.stored)
  pcs : ∀ i, PcOk s.col s.stored (s.pcs i)
  acks : NoFalseAck s

theorem ScanOk.mono {g : Scan} (h : ScanOk col stored g) (hl : col.lastAckPos ≤ col'.lastAckPos)
    (hs : ∀ p ∈ stored, p ∈ stored')
    (hb : ∀ start, g = .cas start → start = col'.lastAckPos →
      bitOf col.bitmap (start % maxBitNum) = false → bitOf col'.bitmap (start % maxBitNum) = false) :
    ScanOk col' stored' g := by
  cases g with
  | load => trivial
  | reset start => exact Nat.le_trans h hl
  | cas start =>
    rcases h with h | ⟨h1, h2, h3⟩
    · exact .inl (Nat.lt_of_lt_of_le h hl)
    · rcases Nat.eq_or_lt_of_le hl with he | hlt
      · exact .inr ⟨h1.trans he, hs _ h2, hb start rfl (h1.trans he) h3⟩
      · exact .inl (h1 ▸ hlt)
  | result => trivial
  | kind seq => exact fun p hp => hs p (h p hp)

theorem PcOk.mono (h : PcOk col stored pc) (hl : col.lastAckPos ≤ col'.lastAckPos)
    (hs : ∀ p ∈ stored, p ∈ stored')
    (hb : ∀ start, pc.scan = some (.cas start) → start = col'.lastAckPos →
      bitOf col.bitmap (start % maxBitNum) = false → bitOf col'.bitmap (start % maxBitNum) = false) :
    PcOk col' stored' pc := by
  cases pc with
  | setScan seq t g => exact ScanOk.mono h hl hs fun start hg => hb start (by rw [hg]; rfl)
  | getScan a g => exact ScanOk.mono h hl hs fun start hg => hb start (by rw [hg]; rfl)
  | setAckTime seq t | setRecvTime seq t | setBit seq t =>
    exact Nat.lt_of_lt_of_le h (Nat.add_le_add_right hl _)
  | _ => trivial

namespace Inv

/-- Thread `i` moves on; the others see at most a larger `lastAckPos` and more positions stored. -/
theorem move (h : Inv s) (hl : s.col.lastAckPos ≤ col'.lastAckPos) (hs : ∀ p ∈ s.stored, p ∈ stored')
    (hb : ∀ j ≠ i, ∀ start, (s.pcs j).scan = some (.cas start) → start = col'.lastAckPos →
      bitOf s.col.bitmap (start % maxBitNum) = false → bitOf col'.bitmap (start % maxBitNum) = false)
    (hsound : Window.Sound maxBitNum (bitOf col'.bitmap) col'.lastAckPos (· ∈ stored'))
    (hpc : PcOk col' stored' pc) {acks' : List Nat}
    (hacks : ∀ a ∈ acks', a ∈ s.acks ∨ ∀ p, p * packetMaxDataLength < a → p ∈ stored') :
    Inv (State.goto ⟨col', s.pcs, stored', acks'⟩ i pc) := by
  refine ⟨hsound, fun j => ?_, fun a ha p hp => ?_⟩
  · by_cases hj : j = i
    · subst hj; simpa [State.goto] using hpc
    · simpa [State.goto, hj] using PcOk.mono (h.pcs j) hl hs (hb j hj)
  · rcases hacks a ha with ha | ha
    · exact hs p (h.acks a ha p hp)
    · exact ha p hp

theorem goto (h : Inv s) (hbm : col'.bitmap = s.col.bitmap) (hl : col'.lastAckPos = s.col.lastAckPos)
    (hpc : PcOk col' s.stored pc) : Inv (State.goto ⟨col', s.pcs, s.stored, s.acks⟩ i pc) :=
  h.move (Nat.le_of_eq hl.symm) (fun _ hp => hp) (fun _ _ _ _ _ hf => hbm ▸ hf)
    (by rw [hbm, hl]; exact h.sound) hpc fun _ ha => .inl ha

end Inv

theorem inv_init (h : machine.init s) : Inv s := by
  cases h
  refine ⟨?_, fun _ => trivial, fun a ha => by simp at ha⟩
  exact (AckInfoCollector.ok_zero).toSound.mono fun _ h => h.elim

/-- One operation of `_get_next_ack` keeps what the collector promises and what the call relies on. -/
theorem scanStep_inv (h : Inv s) {g : Scan} (hi : (s.pcs i).scan = some g) :
    s.col.lastAckPos ≤ (scanStep s.col g).1.lastAckPos ∧
    (∀ k, bitOf s.col.bitmap k = false → bitOf (scanStep s.col g).1.bitmap k = false) ∧
    Window.Sound maxBitNum (bitOf (scanStep s.col g).1.bitmap)
      (scanStep s.col g).1.lastAckPos (· ∈ s.stored) ∧
    (∀ g', (scanStep s.col g).2 = .inl g' → ScanOk (scanStep s.col g).1 s.stored g') ∧
    (∀ seq, (scanStep s.col g).2 = .inr seq → ∀ p, p * packetMaxDataLength < seq → p ∈ s.stored) := by
  have hg : ScanOk s.col s.stored g := by
    have := h.pcs i
    revert hi this
    cases s.pcs i <;> intro hi this <;> first | (cases hi; exact this) | cases hi
  cases g with
  | load =>
    refine ⟨Nat.le_refl _, fun _ hf => hf, h.sound, fun g' he => ?_, fun _ he => by cases he⟩
    cases he
    exact Nat.le_refl _
  | reset start =>
    have hbits := AckInfoCollector.bitOf_bitTestAndReset s.col (start % maxBitNum)
    refine ⟨Nat.le_refl _, fun k hf => ?_, h.sound.clear hbits,
      fun g' he => ?_, fun _ he => by cases he⟩
    · show bitOf (s.col.bitTestAndReset (start % maxBitNum)).2.bitmap k = false
      rw [hbits, hf, Bool.false_and]
    · simp only [scanStep, Sum.inl.injEq] at he
      subst he
      split
      · trivial
      · rename_i hz
        rcases Nat.lt_or_eq_of_le hg with hlt | heq
        · exact .inl hlt
        · refine .inr ⟨heq, ?_,
            by show bitOf (s.col.bitTestAndReset _).2.bitmap _ = false; simp [hbits]⟩
          refine h.sound.bits start (Nat.le_of_eq heq.symm)
            (heq ▸ Nat.lt_add_of_pos_right (by decide)) ?_
          rw [← Bool.not_eq_false]
          exact fun hf => hz ((oldBit_bitOf _ _).2 hf)
  | cas start =>
    simp only [scanStep]
    split
    · rename_i hcas
      obtain hlt | ⟨-, hst, hclr⟩ := hg
      · omega
      refine ⟨by simp only; omega, fun _ hf => hf, ?_, fun g' he => ?_, fun _ he => by cases he⟩
      · exact hcas ▸ h.sound.advance (hcas ▸ hst) (hcas ▸ hclr)
      · cases he; trivial
    · refine ⟨Nat.le_refl _, fun _ hf => hf, h.sound, fun g' he => ?_, fun _ he => by cases he⟩
      cases he; trivial
  | result =>
    refine ⟨Nat.le_refl _, fun _ hf => hf, h.sound, fun g' he => ?_, fun _ he => by cases he⟩
    cases he
    intro p hp
    have := u32_le (s.col.lastAckPos * packetMaxDataLength)
    exact h.sound.below p (Nat.lt_of_mul_lt_mul_right (Nat.lt_of_lt_of_le hp this))
  | kind seq =>
    refine ⟨Nat.le_refl _, fun _ hf => hf, h.sound, fun _ he => (by cases he), fun seq' he => ?_⟩
    cases he
    exact hg

theorem inv_step {a : Act} (h : Inv s) (ht : Timely s a) (hs : machine.step s a = some s') :
    Inv s' := by
  cases a with
  | callSet i seq t =>
    simp only [machine] at hs
    split at hs
    · split at hs
      · cases hs; exact h.goto rfl rfl trivial
      · cases hs
    · cases hs
  | callGet i =>
    simp only [machine] at hs
    split at hs
    · cases hs; exact h.goto rfl rfl trivial
    · cases hs
  | step i =>
    simp only [machine, State.threadStep] at hs
    have hi := h.pcs i
    split at hs <;> rename_i hpc <;> rw [hpc] at hi <;> try cases hs
    · split <;> exact h.goto rfl rfl trivial
    · exact h.goto rfl rfl trivial
    · split <;> exact h.goto rfl rfl trivial
    · split
      · exact h.goto rfl rfl trivial
      · rename_i hlt; exact h.goto rfl rfl (Nat.lt_of_not_le hlt)
    · rename_i seq t g
      obtain ⟨hl, hb, hsound, hg, -⟩ := scanStep_inv h (i := i) (g := g) (by rw [hpc]; rfl)
      refine h.move hl (fun _ hp => hp) (fun _ _ _ _ _ hf => hb _ hf) hsound ?_ fun _ ha => .inl ha
      split
      · exact hg _ ‹_›
      · trivial
    · split
      · exact h.goto rfl rfl trivial
      · rename_i hlt; exact h.goto rfl rfl (Nat.lt_of_not_le hlt)
    · exact h.goto rfl rfl hi
    · exact h.goto rfl rfl hi
    · rename_i seq t
      -- the only step that sets a bit: `Timely` keeps it inside the window and off pending positions
      obtain ⟨hlow, hfree⟩ := ht seq t hpc
      have hbits := AckInfoCollector.bitOf_bitTestAndSet s.col (seq / packetMaxDataLength % maxBitNum)
      have hsound : Window.Sound maxBitNum _ _ (· ∈ seq / packetMaxDataLength :: s.stored) :=
        (h.sound.set hlow hi hbits).mono fun q hq => List.mem_cons.2 hq.symm
      have hl : s.col.lastAckPos ≤
          (s.col.bitTestAndSet (seq / packetMaxDataLength % maxBitNum)).2.lastAckPos := Nat.le_refl _
      refine h.move hl (fun _ hp => List.mem_cons_of_mem _ hp) (fun j _ start hj he hf => ?_) hsound
        (show PcOk _ _ .idle from trivial) fun _ ha => .inl ha
      rw [hbits, hf, Bool.false_or, decide_eq_false_iff_not]
      intro hmod
      have he : start = s.col.lastAckPos := he
      have hlt : start < s.col.lastAckPos + maxBitNum := he ▸ Nat.lt_add_of_pos_right (by decide)
      exact hfree j (Window.mod_inj (Nat.le_of_eq he.symm) hlt hlow hi hmod ▸ hj)
    · split <;> exact h.goto rfl rfl trivial
    · exact h.goto rfl rfl trivial
    · rename_i a g
      obtain ⟨hl, hb, hsound, hg, hr⟩ := scanStep_inv h (i := i) (g := g) (by rw [hpc]; rfl)
      split at hs <;> rename_i hscan <;> cases hs <;> rw [hscan] at hl hb hsound hg hr
      · rename_i c g'
        have hpc' : PcOk c s.stored (.getScan a g') := hg _ rfl
        exact h.move hl (fun _ hp => hp) (fun _ _ _ _ _ hf => hb _ hf) hsound hpc' fun _ ha => .inl ha
      · refine h.move hl (fun _ hp => hp) (fun _ _ _ _ _ hf => hb _ hf) hsound
          (show PcOk _ _ .idle from trivial) fun a ha => ?_
        rcases List.mem_cons.1 ha with rfl | ha
        · exact .inr (hr _ rfl)
        · exact .inl ha

end inv

/-- Without a late store no position is acknowledged that was never received. -/
theorem noFalseAck_of_timely {s : State} (h : machine.ReachUnder Timely s) : NoFalseAck s :=
  (h.invariant (fun _ => inv_init) fun _ _ _ hi hc hs => inv_step hi hc hs).acks

/-! ### Runs of one call -/

section calls
variable {C : State → Act → Prop} {col : AckInfoCollector} {f : Nat → Pc} {i : Nat} {pc : Pc}
  {stored acks : List Nat} {s : State}

@[simp] theorem goto_update (pc' : Pc) :
    State.goto ⟨col, Function.update f i pc, stored, acks⟩ i pc' =
      ⟨col, Function.update f i pc', stored, acks⟩ := by
  simp [State.goto]

theorem reach_step (hC : ∀ s a, Timely s a → C s a)
    (h : machine.ReachUnder C ⟨col, Function.update f i pc, stored, acks⟩)
    (ht : ∀ seq t, pc ≠ .setBit seq t)
    (hs : State.threadStep ⟨col, Function.update f i pc, stored, acks⟩ i = some s) :
    machine.ReachUnder C s := by
  refine h.step (a := .step i) (hC _ _ fun seq t he => ?_) hs
  exact absurd (by simpa using he) (ht seq t)

/-- A `set` call for a position of the window stores its bit, if the others leave it alone and the
store itself meets `C`. -/
theorem reach_set (hC : ∀ s a, Timely s a → C s a) (h : machine.ReachUnder C ⟨col, f, stored, acks⟩)
    (hf : f i = .idle) {p : Nat} (hlow : col.lastAckPos ≤ p) (hhigh : p < col.lastAckPos + maxBitNum)
    (hp : p * packetMaxDataLength < 2 ^ 32)
    (hlast : ∀ col', col'.lastAckPos = col.lastAckPos →
      C ⟨col', Function.update f i (.setBit (p * packetMaxDataLength) 1), stored, acks⟩ (.step i)) :
    ∃ col', machine.ReachUnder C ⟨col', f, p :: stored, acks⟩ ∧ col'.lastAckPos = col.lastAckPos ∧
      ∀ k, bitOf col'.bitmap k = (bitOf col.bitmap k || decide (k = p % maxBitNum)) := by
  have hdiv : p * packetMaxDataLength / packetMaxDataLength = p := Nat.mul_div_cancel _ (by decide)
  have hlow' : ¬ p < col.lastAckPos := by omega
  have hhigh' : ¬ p ≥ col.lastAckPos + maxBitNum := by omega
  have h1 : machine.ReachUnder C
      ⟨col, Function.update f i (.setLoadMax (p * packetMaxDataLength) 1), stored, acks⟩ :=
    h.step (a := .callSet i (p * packetMaxDataLength) 1) (hC _ _ trivial)
      (by simp only [machine, hf, if_pos hp, State.goto])
  have h2 : ∃ m, machine.ReachUnder C
      ⟨{ col with maxSeq := m }, Function.update f i (.setLow (p * packetMaxDataLength) 1),
        stored, acks⟩ := by
    by_cases hm : p * packetMaxDataLength > col.maxSeq
    · have h2 := reach_step hC h1 (by simp)
        (by simp only [State.threadStep, Function.update_self, if_pos hm, goto_update]; rfl)
      exact ⟨_, reach_step hC h2 (by simp)
        (by simp only [State.threadStep, Function.update_self, goto_update]; rfl)⟩
    · exact ⟨col.maxSeq, reach_step hC h1 (by simp)
        (by simp only [State.threadStep, Function.update_self, if_neg hm, goto_update])⟩
  obtain ⟨m, h2⟩ := h2
  have h3 := reach_step hC h2 (by simp)
    (by simp only [State.threadStep, Function.update_self, hdiv, if_neg hlow', goto_update]; rfl)
  have h4 := reach_step hC h3 (by simp)
    (by simp only [State.threadStep, Function.update_self, hdiv, if_neg hhigh', goto_update]; rfl)
  have h5 := reach_step hC h4 (by simp)
    (by simp only [State.threadStep, Function.update_self, goto_update]; rfl)
  have h6 := reach_step hC h5 (by simp)
    (by simp only [State.threadStep, Function.update_self, goto_update]; rfl)
  have hidle : Function.update f i .idle = f := by rw [← hf, Function.update_eq_self]
  have h7 := h6.step (a := .step i) (by exact hlast _ rfl)
    (by simp only [machine, State.threadStep, Function.update_self, hdiv, goto_update, hidle]; rfl)
  exact ⟨_, h7, rfl, AckInfoCollector.bitOf_bitTestAndSet _ _⟩

theorem reach_set_idle (hC : ∀ s a, Timely s a → C s a)
    (h : machine.ReachUnder C ⟨col, fun _ => .idle, stored, acks⟩) {p : Nat} (hlow : col.lastAckPos ≤ p)
    (hhigh : p < col.lastAckPos + maxBitNum) (hp : p * packetMaxDataLength < 2 ^ 32) :
    ∃ col', machine.ReachUnder C ⟨col', fun _ => .idle, p :: stored, acks⟩ ∧
      col'.lastAckPos = col.lastAckPos ∧
      ∀ k, bitOf col'.bitmap k = (bitOf col.bitmap k || decide (k = p % maxBitNum)) := by
  refine reach_set (i := 0) hC h rfl hlow hhigh hp fun col' hl => hC _ _ fun seq t he => ?_
  simp only [Function.update_self, Pc.setBit.injEq] at he
  rw [← he.1, Nat.mul_div_cancel _ (by decide)]
  refine ⟨hl ▸ hlow, fun j => ?_⟩
  by_cases hj : j = 0
  · subst hj; simp [Pc.scan]
  · simp [hj, Pc.scan]

theorem reach_get (hC : ∀ s a, Timely s a → C s a)
    (h : machine.ReachUnder C ⟨col, fun _ => .idle, stored, acks⟩) :
    ∃ a col', machine.ReachUnder C ⟨col', Function.update (fun _ => .idle) 0 (.getScan a .load),
      stored, acks⟩ ∧
      col'.lastAckPos = col.lastAckPos ∧ col'.bitmap = col.bitmap := by
  have h1 : machine.ReachUnder C ⟨col, Function.update (fun _ => .idle) 0 .getAckTime, stored, acks⟩ :=
    h.step (a := .callGet 0) (hC _ _ trivial) (by simp only [machine, State.goto])
  by_cases ha : col.ackTime = 0
  · have h2 := reach_step hC h1 (by simp)
      (by simp only [State.threadStep, Function.update_self, if_pos ha, goto_update]; rfl)
    have h3 := reach_step hC h2 (by simp)
      (by simp only [State.threadStep, Function.update_self, goto_update]; rfl)
    exact ⟨_, _, h3, rfl, rfl⟩
  · have h2 := reach_step hC h1 (by simp)
      (by simp only [State.threadStep, Function.update_self, if_neg ha, goto_update]; rfl)
    exact ⟨_, _, h2, rfl, rfl⟩

theorem reach_round (hC : ∀ s a, Timely s a → C s a) {a : Nat}
    (h : machine.ReachUnder C ⟨col, Function.update (fun _ => .idle) 0 (.getScan a .load),
      stored, acks⟩)
    (hb : bitOf col.bitmap (col.lastAckPos % maxBitNum) = true) :
    ∃ col', machine.ReachUnder C ⟨col',
      Function.update (fun _ => .idle) 0 (.getScan a (.cas col.lastAckPos)), stored, acks⟩ ∧
      col'.lastAckPos = col.lastAckPos ∧
      ∀ k, bitOf col'.bitmap k = (bitOf col.bitmap k && !decide (k = col.lastAckPos % maxBitNum)) := by
  have h1 := reach_step hC h (by simp)
    (by simp only [State.threadStep, scanStep, Function.update_self, goto_update]; rfl)
  have hz : ¬ (col.bitTestAndReset (col.lastAckPos % maxBitNum)).1 = 0 := fun hz => by
    have := (oldBit_bitOf _ _).1 hz
    rw [hb] at this
    cases this
  have h2 := reach_step hC h1 (by simp)
    (by simp only [State.threadStep, scanStep, Function.update_self, if_neg hz, goto_update]; rfl)
  exact ⟨_, h2, rfl, AckInfoCollector.bitOf_bitTestAndReset _ _⟩

theorem reach_cas (hC : ∀ s a, Timely s a → C s a) {a start : Nat}
    (h : machine.ReachUnder C ⟨col, Function.update (fun _ => .idle) 0 (.getScan a (.cas start)),
      stored, acks⟩)
    (hstart : col.lastAckPos = start) :
    machine.ReachUnder C ⟨{ col with lastAckPos := start + 1 },
      Function.update (fun _ => .idle) 0 (.getScan a .load), stored, acks⟩ :=
  reach_step hC h (by simp)
    (by simp only [State.threadStep, scanStep, Function.update_self, if_pos hstart, goto_update])

theorem reach_ack (hC : ∀ s a, Timely s a → C s a) {a : Nat} (n : Nat) (hn : n ≤ maxBitNum)
    (h : machine.ReachUnder C ⟨col, Function.update (fun _ => .idle) 0 (.getScan a .load),
      stored, acks⟩)
    (hset : ∀ p, col.lastAckPos ≤ p → p < col.lastAckPos + n → bitOf col.bitmap (p % maxBitNum) = true)
    (hend : n = maxBitNum ∨ bitOf col.bitmap ((col.lastAckPos + n) % maxBitNum) = false) :
    ∃ col', machine.ReachUnder C
        ⟨col', fun _ => .idle, stored, u32 ((col.lastAckPos + n) * packetMaxDataLength) :: acks⟩ ∧
      col'.lastAckPos = col.lastAckPos + n ∧
      ∀ k, (∀ p, col.lastAckPos ≤ p → p < col.lastAckPos + n → k ≠ p % maxBitNum) →
        bitOf col'.bitmap k = bitOf col.bitmap k := by
  induction n generalizing col with
  | zero =>
    have hb : bitOf col.bitmap (col.lastAckPos % maxBitNum) = false := by simpa using hend
    have h1 := reach_step hC h (by simp)
      (by simp only [State.threadStep, scanStep, Function.update_self, goto_update]; rfl)
    have hz : (col.bitTestAndReset (col.lastAckPos % maxBitNum)).1 = 0 := (oldBit_bitOf _ _).2 hb
    have h2 := reach_step hC h1 (by simp)
      (by simp only [State.threadStep, scanStep, Function.update_self, if_pos hz, goto_update]; rfl)
    have h3 := reach_step hC h2 (by simp)
      (by simp only [State.threadStep, scanStep, Function.update_self, goto_update]; rfl)
    have hidle : Function.update (fun _ : Nat => Pc.idle) 0 .idle = fun _ => .idle := by simp
    have h4 := reach_step hC h3 (by simp)
      (by simp only [State.threadStep, scanStep, Function.update_self, goto_update, hidle]; rfl)
    refine ⟨_, h4, rfl, fun k _ => ?_⟩
    rw [AckInfoCollector.bitOf_bitTestAndReset]
    by_cases hk : k = col.lastAckPos % maxBitNum
    · rw [hk, hb, Bool.false_and]
    · simp [hk]
  | succ n ih =>
    obtain ⟨col', h1, hl, hbits⟩ := reach_round hC h (hset _ (Nat.le_refl _) (by omega))
    have h2 := reach_cas hC h1 hl
    have hset' : ∀ p, col.lastAckPos + 1 ≤ p → p < col.lastAckPos + 1 + n →
        bitOf col'.bitmap (p % maxBitNum) = true := by
      intro p hp hp'
      rw [hbits, hset p (by omega) (by omega), Bool.true_and,
        Bool.not_eq_true', decide_eq_false_iff_not]
      intro he
      have := Window.mod_inj (Nat.le_of_succ_le hp) (by omega) (Nat.le_refl _)
        (Nat.lt_add_of_pos_right (by decide)) he
      omega
    have hend' : bitOf col'.bitmap ((col.lastAckPos + 1 + n) % maxBitNum) = false := by
      rw [hbits, show col.lastAckPos + 1 + n = col.lastAckPos + (n + 1) by omega]
      rcases hend with hend | hend
      · rw [hend, Nat.add_mod_right]; simp
      · rw [hend, Bool.false_and]
    obtain ⟨col'', h3, h4, h5⟩ := ih (by omega) h2 hset' (.inr hend')
    simp only [Nat.add_assoc, Nat.add_comm 1 n] at h3 h4 h5
    refine ⟨col'', h3, h4, fun k hk => ?_⟩
    rw [h5 k fun p hp hp' => hk p (by omega) hp', hbits]
    have := hk _ (Nat.le_refl _) (by omega)
    simp [this]

theorem reach_sets (hC : ∀ s a, Timely s a → C s a) (n : Nat) (hn : n ≤ maxBitNum)
    (h : machine.ReachUnder C ⟨col, fun _ => .idle, stored, acks⟩)
    (hp : (col.lastAckPos + n) * packetMaxDataLength < 2 ^ 32) :
    ∃ col' stored', machine.ReachUnder C ⟨col', fun _ => .idle, stored', acks⟩ ∧
      col'.lastAckPos = col.lastAckPos ∧ (∀ p ∈ stored', p ∈ stored ∨ p < col.lastAckPos + n) ∧
      (∀ k, bitOf col.bitmap k = true → bitOf col'.bitmap k = true) ∧
      ∀ p, col.lastAckPos ≤ p → p < col.lastAckPos + n → bitOf col'.bitmap (p % maxBitNum) = true := by
  induction n with
  | zero => exact ⟨col, stored, h, rfl, fun _ hp => .inl hp, fun _ hk => hk, fun p h1 h2 => by omega⟩
  | succ n ih =>
    obtain ⟨col₁, stored₁, h1, hl₁, hst, hkeep, hset⟩ :=
      ih (by omega) (Nat.lt_of_le_of_lt (Nat.mul_le_mul_right _ (by omega)) hp)
    obtain ⟨col₂, h2, hl₂, hbits⟩ :=
        reach_set_idle hC h1 (p := col.lastAckPos + n) (by omega) (by omega)
      (Nat.lt_of_le_of_lt (Nat.mul_le_mul_right _ (by omega)) hp)
    refine ⟨col₂, _, h2, hl₂.trans hl₁, fun p hp => ?_, fun k hk => ?_, fun p h3 h4 => ?_⟩
    · rcases List.mem_cons.1 hp with rfl | hp
      · exact .inr (by omega)
      · exact (hst p hp).imp_right fun h => by omega
    · rw [hbits, hkeep k hk, Bool.true_or]
    · rw [hbits]
      by_cases hpn : p = col.lastAckPos + n
      · simp [hpn]
      · rw [hset p h3 (by omega), Bool.true_or]

end calls

/-- A run without late stores: packets 0 and 1 come in and `get_next_ack` answers 2904. -/
theorem noFalseAck_of_timely_two :
    ∃ s, machine.ReachUnder Timely s ∧ s.acks = [2904] ∧ NoFalseAck s := by
  have hC : ∀ s a, Timely s a → Timely s a := fun _ _ h => h
  have h0 : machine.ReachUnder Timely ⟨.zero, fun _ => .idle, [], []⟩ := .init rfl
  have hb₀ : ∀ k, bitOf AckInfoCollector.zero.bitmap k = false := by simp [bitOf, AckInfoCollector.zero]
  obtain ⟨c₁, h1, hl₁, hb₁⟩ := reach_set_idle hC h0 (p := 0) (Nat.le_refl _) (by decide) (by decide)
  have hl₁ : c₁.lastAckPos = 0 := hl₁
  obtain ⟨c₂, h2, hl₂, hb₂⟩ := reach_set_idle hC h1 (p := 1) (by omega)
    (Nat.lt_of_lt_of_le (by decide) (Nat.le_add_left _ _)) (by decide)
  have hb₂ : ∀ k, bitOf c₂.bitmap k = (decide (k = 0) || decide (k = 1)) := by
    intro k; rw [hb₂, hb₁, hb₀, Bool.false_or]; rfl
  obtain ⟨a, c₃, h3, hl₃, hbm⟩ := reach_get hC h2
  have hl₃ : c₃.lastAckPos = 0 := by rw [hl₃, hl₂, hl₁]
  obtain ⟨c₄, h4, -, -⟩ := reach_ack hC 2 (by decide) h3
    (fun p hp hp' => by
      rw [hl₃] at hp hp'
      rw [hbm, hb₂, show p % maxBitNum = p by simp; omega]
      rcases Nat.lt_or_ge p 1 with h | h
      · simp [show p = 0 by omega]
      · simp [show p = 1 by omega])
    (.inr (by rw [hbm, hb₂, hl₃]; rfl))
  exact ⟨_, h4, by rw [hl₃, u32_of_lt (by decide)]; rfl, noFalseAck_of_timely h4⟩

/-- After `set(0)` a `get_next_ack` clears the bit of packet 0; before it advances, a duplicate of
packet 0 stores it again. Once packets 1 to 3071 have come in as well, the next `get_next_ack`
acknowledges packet 3072, which nobody received. -/
theorem exists_falseAck : ¬ ∀ s, machine.Reach s → NoFalseAck s := by
  intro hall
  have hC : ∀ s a, Timely s a → (fun (_ : State) (_ : Act) => True) s a := fun _ _ _ => trivial
  have h0 : machine.Reach ⟨.zero, fun _ => .idle, [], []⟩ := .init rfl
  have hb₀ : ∀ k, bitOf AckInfoCollector.zero.bitmap k = false := by simp [bitOf, AckInfoCollector.zero]
  obtain ⟨c₁, h1, hl₁, hb₁⟩ := reach_set_idle hC h0 (p := 0) (Nat.le_refl _) (by decide) (by decide)
  have hl₁ : c₁.lastAckPos = 0 := hl₁
  obtain ⟨a, c₂, h2, hl₂, hbm⟩ := reach_get hC h1
  obtain ⟨c₃, h3, hl₃, hb₃⟩ := reach_round hC h2 (by rw [hl₂, hl₁, hbm, hb₁]; simp)
  rw [hl₂.trans hl₁] at h3 hl₃ hb₃
  -- the duplicate of packet 0, by thread 1, while thread 0 is about to advance
  obtain ⟨c₄, h4, hl₄, hb₄⟩ := reach_set (i := 1) (p := 0) hC h3 rfl (by omega)
    (Nat.lt_of_lt_of_le (by decide) (Nat.le_add_left _ _)) (by decide) fun _ _ => trivial
  have hl₄ : c₄.lastAckPos = 0 := hl₄.trans hl₃
  have hb₄ : ∀ k, bitOf c₄.bitmap k = decide (k = 0) := by
    intro k
    rw [hb₄, hb₃, hbm, hb₁, hb₀]
    by_cases hk : k = 0 <;> simp [hk]
  obtain ⟨c₅, h5, hl₅, hb₅⟩ := reach_ack hC 0 (by decide) (reach_cas hC h4 hl₄)
    (fun p h1 h2 => by omega) (.inr (hb₄ 1))
  have hl₅ : c₅.lastAckPos = 1 := hl₅
  have hb₅ : bitOf c₅.bitmap 0 = true := by
    rw [hb₅ 0 fun p h1 h2 => by omega]
    exact hb₄ 0
  obtain ⟨c₆, st, h6, hl₆, hst, hkeep, hset⟩ := reach_sets hC 3071 (by decide) h5 (by rw [hl₅]; decide)
  rw [hl₅] at hl₆ hst hset
  obtain ⟨a', c₇, h7, hl₇, hbm₇⟩ := reach_get hC h6
  obtain ⟨c₈, h8, -, -⟩ := reach_ack hC maxBitNum (Nat.le_refl _) h7 (fun p hp hp' => by
    rw [hl₇, hl₆] at hp hp'
    rw [hbm₇]
    have hp' : p < 1 + 3072 := hp'
    rcases Nat.lt_or_ge p (1 + 3071) with h | h
    · exact hset p hp h
    · rw [show p = 3072 by omega]; exact hkeep 0 hb₅) (.inl rfl)
  rw [hl₇, hl₆] at h8
  rcases hst 3072 (hall _ h8 _ List.mem_cons_self 3072 (by rw [u32_of_lt (by decide)]; decide)) with
      h | h
  · simp at h
  · omega

end Resend.Udp.AckRace
