import Resend.Udp.SendWindow
import Resend.Udp.Packets

/-!
# The send window stays open

`_writer_congestion` moves the right cursor back to the current one. That closes the window when the
current cursor has been overtaken by acks; otherwise the window of a live writer stays open. `Ok` is
the invariant of the window, `Timely` the condition that acks and timeouts have to meet.
-/

namespace Resend.Udp
open Handler Connection ConM

/-- The last packet boundary below `2 ^ 32`; the cursor wraps past it. -/
def maxCursor : Nat := 2957966 * packetMaxDataLength

namespace SendWindow

/-- A window size that only doublings have produced. -/
def Doubled (n : Nat) : Prop := ∃ j, n = packetMaxDataLength * 2 ^ j % 2 ^ 64

/-- No window size gets past this, apart from what additive growth adds. -/
def siteBound : Nat := 2 ^ 64 - 2 ^ 56

theorem Doubled.init : Doubled packetMaxDataLength := ⟨0, rfl⟩

theorem Doubled.double {n : Nat} (h : Doubled n) : Doubled (u64 (2 * n)) := by
  obtain ⟨j, rfl⟩ := h
  refine ⟨j + 1, ?_⟩
  have : packetMaxDataLength * 2 ^ (j + 1) = 2 * (packetMaxDataLength * 2 ^ j) := by ring
  rw [this, u64]
  omega

theorem Doubled.le {n : Nat} (h : Doubled n) : n ≤ siteBound := by
  obtain ⟨j, rfl⟩ := h
  rcases Nat.lt_or_ge j 54 with hj | hj
  · have h1 : 2 ^ j ≤ 2 ^ 53 := Nat.pow_le_pow_right (by decide) (by omega)
    have h2 := Nat.mod_le (packetMaxDataLength * 2 ^ j) (2 ^ 64)
    simp only [siteBound, packetMaxDataLength] at *
    omega
  · -- from here on the low 56 bits are zero
    obtain ⟨i, rfl⟩ := Nat.exists_eq_add_of_le hj
    have h1 : packetMaxDataLength * 2 ^ (54 + i) = 2 ^ 56 * (363 * 2 ^ i) := by
      simp only [packetMaxDataLength]; ring
    have h2 : 2 ^ 56 * (363 * 2 ^ i) % 2 ^ 64 = 2 ^ 56 * (363 * 2 ^ i % 2 ^ 8) := by
      rw [← Nat.mul_mod_mul_left]
      norm_num
    rw [h1, h2, siteBound]
    have := Nat.mod_lt (363 * 2 ^ i) (show 0 < 2 ^ 8 by decide)
    omega

structure Ok (w : SendWindow) : Prop where
  len : w.len < 2 ^ 32
  leftLt : w.left < w.len
  leftDvd : packetMaxDataLength ∣ w.left
  curDvd : packetMaxDataLength ∣ w.cur
  curLe : w.cur ≤ maxCursor
  oldDvd : packetMaxDataLength ∣ w.old
  oldLe : w.old ≤ maxCursor
  sackSeq : w.sackSeq = w.left
  opened : w.left < w.right
  /-- In recovery the right cursor stays, and acks below the current cursor stay below it. -/
  recovery : w.inSack = true → ∀ m, packetMaxDataLength ∣ m → w.left ≤ m → m < w.cur → m < w.right
  newAck : w.newAck = true → w.cur ≤ w.left ∧ w.inSack = false
  pending : w.sack = true ∨ w.timeOut = true → w.old = w.cur
  sitePos : w.inSack = false → 0 < w.site
  siteLe : w.site ≤ siteBound + 2 * w.left
  ssthreshLt : w.ssthresh < 2 ^ 64
  ssthresh : w.sack = true ∨ w.inSack = true → 0 < w.ssthresh ∧ w.ssthresh ≤ siteBound + 2 * w.left
  doubled : w.site < w.ssthresh → Doubled w.site

namespace Ok
variable {w : SendWindow}

theorem le_maxCursor {n : Nat} (hd : packetMaxDataLength ∣ n) (hn : n < 2 ^ 32) : n ≤ maxCursor := by
  obtain ⟨k, rfl⟩ := hd
  simp only [maxCursor, packetMaxDataLength] at *
  omega

theorem leftLt32 (h : Ok w) : w.left < 2 ^ 32 := Nat.lt_trans h.leftLt h.len

/-- The right cursor computed from a window of this size does not wrap. -/
theorem u64_left_add {left site : Nat} (hl : left < 2 ^ 32) (hs : site ≤ siteBound + 2 * left) :
    u64 (left + site) = left + site := by
  refine u64_of_lt ?_
  simp only [siteBound] at hs
  omega

/-! ### Sender runs -/

theorem process (h : Ok w) : Ok w.process := by
  have hcur : packetMaxDataLength ∣ w.process.cur ∧ w.process.cur ≤ maxCursor := by
    simp only [SendWindow.process, u32_of_lt h.leftLt32]
    split
    · exact ⟨h.oldDvd, h.oldLe⟩
    · split
      exacts [⟨h.leftDvd, le_maxCursor h.leftDvd h.leftLt32⟩, ⟨h.curDvd, h.curLe⟩]
  refine ⟨h.len, h.leftLt, h.leftDvd, hcur.1, hcur.2, h.oldDvd, h.oldLe, h.sackSeq, h.opened, ?_,
    fun hn => (by cases hn), fun hp => (by rcases hp with hp | hp <;> cases hp), fun hin =>
      ?_, h.siteLe,
    h.ssthreshLt, fun hp => ?_, h.doubled⟩
  · -- the cursor goes back to the left one, or the recovery is the one from before
    intro hin m hm hlm hmc
    simp only [SendWindow.process, u32_of_lt h.leftLt32, Bool.or_eq_true] at hin hlm hmc ⊢
    by_cases hn : w.newAck = true
    · obtain ⟨hcl, hns⟩ := h.newAck hn
      have hs : w.sack = true := by simpa [hns] using hin
      rw [if_pos hn, h.pending (.inl hs)] at hmc
      omega
    · rw [if_neg hn] at hmc
      split at hmc
      · omega
      · rename_i hb
        simp only [not_or, Bool.not_eq_true] at hb
        exact h.recovery (by simpa [hb.2] using hin) m hm hlm hmc
  · have hin : w.inSack = false ∧ w.sack = false := by simpa [SendWindow.process] using hin
    exact h.sitePos hin.1
  · refine h.ssthresh ?_
    simpa [SendWindow.process, or_comm] using hp

theorem advance (h : Ok w) (hs : Settled w) (hc : w.canSend) (hne : w.cur ≠ maxCursor) :
    Ok w.advance := by
  have hle : w.cur + packetMaxDataLength ≤ maxCursor := by
    obtain ⟨k, hk⟩ := h.curDvd
    have := h.curLe
    simp only [maxCursor, packetMaxDataLength] at *
    omega
  have hcur : w.advance.cur = w.cur + packetMaxDataLength :=
    u32_of_lt (Nat.lt_of_le_of_lt hle (by decide))
  obtain ⟨h1, h2, h3⟩ := hs
  refine ⟨h.len, h.leftLt, h.leftDvd, ?_, ?_, h.oldDvd, h.oldLe, h.sackSeq, h.opened, ?_,
    fun hn => ?_, fun hp => ?_, h.sitePos, h.siteLe, h.ssthreshLt, h.ssthresh, h.doubled⟩
  · rw [hcur]; exact Dvd.dvd.add h.curDvd (dvd_refl _)
  · rw [hcur]; exact hle
  · intro hin m hm hlm hmc
    rw [hcur] at hmc
    rcases Nat.lt_or_ge m w.cur with hlt | hge
    · exact h.recovery hin m hm hlm hlt
    · -- the only multiple in between is the cursor itself
      have : m = w.cur := by
        obtain ⟨k, rfl⟩ := hm
        obtain ⟨k', hk'⟩ := h.curDvd
        simp only [packetMaxDataLength] at *
        omega
      rw [this]; exact hc.1
  · have hn : w.newAck = true := hn
    rw [h3] at hn; cases hn
  · rcases hp with hp | hp
    · have hp : w.sack = true := hp
      rw [h2] at hp; cases hp
    · have hp : w.timeOut = true := hp
      rw [h1] at hp; cases hp

/-- The cursor has wrapped, `j` packets before. -/
def Wrapped (j : Nat) (w : SendWindow) : Prop :=
  w.left < w.right ∧ w.cur = 788 + j * packetMaxDataLength

theorem Wrapped.not_dvd {j : Nat} (h : Wrapped j w) : ¬ packetMaxDataLength ∣ w.cur := by
  have := h.2
  simp only [packetMaxDataLength] at *
  omega

theorem Wrapped.loop {j : Nat} (n : Nat) (h : Wrapped j w) (hs : Settled w) (hj : j + n ≤ 16) :
    ∃ j, Wrapped j (w.loop n) := by
  induction n generalizing j w with
  | zero =>
    rw [SendWindow.loop, process_eq hs]
    split <;> exact ⟨j, h⟩
  | succ n ih =>
    rw [SendWindow.loop, process_eq hs]
    split
    · have hcur : w.advance.cur = w.cur + packetMaxDataLength :=
        u32_of_lt (by rw [h.2]; simp only [packetMaxDataLength]; omega)
      refine ih (w := w.advance) (j := j + 1) ⟨h.1, ?_⟩ hs (by omega)
      rw [hcur, h.2]
      simp only [packetMaxDataLength]
      omega
    · exact ⟨j, h⟩

theorem loop (n : Nat) (hn : n ≤ 16) (h : Ok w) (hs : Settled w) :
    Ok (w.loop n) ∨ ∃ j, Wrapped j (w.loop n) := by
  induction n generalizing w with
  | zero =>
    rw [SendWindow.loop, process_eq hs]
    split <;> exact .inl h
  | succ n ih =>
    rw [SendWindow.loop, process_eq hs]
    split
    · rename_i hc
      by_cases hm : w.cur = maxCursor
      · have hcur : w.advance.cur = 788 := by
          rw [SendWindow.advance, hm, u32]
          rfl
        exact .inr (Wrapped.loop (w := w.advance) (j := 0) n ⟨h.opened, hcur⟩ hs (by omega))
      · exact ih (by omega) (h.advance hs hc hm) hs
    · exact .inl h

theorem send (h : Ok w) : Ok w.send ∨ ∃ j, Wrapped j w.send :=
  h.process.loop 16 (Nat.le_refl _) (settled_process w)

/-! ### Acks and timeouts -/

theorem ssthresh_congestion (h : w.ssthresh < 2 ^ 64) :
    0 < w.congestion.ssthresh ∧ w.congestion.ssthresh ≤ siteBound := by
  simp only [SendWindow.congestion, siteBound, packetMaxDataLength]
  split <;> omega

theorem congestion (h : Ok w) (hc : w.left < w.cur) : Ok w.congestion := by
  have hss := ssthresh_congestion h.ssthreshLt
  refine ⟨h.len, h.leftLt, h.leftDvd, h.curDvd, h.curLe, h.curDvd, h.curLe,
    h.sackSeq, hc, ?_, fun hn => ?_, fun _ => rfl, fun _ => Nat.succ_pos _, ?_, ?_, fun _ =>
      ⟨hss.1, ?_⟩, fun _ => Doubled.init⟩
  · exact fun _ m _ _ hm => hm
  · exact absurd hc (Nat.not_lt.2 (h.newAck hn).1)
  · exact Nat.le_trans (show packetMaxDataLength ≤ siteBound by decide) (Nat.le_add_right _ _)
  · exact Nat.lt_of_le_of_lt hss.2 (by decide)
  · exact Nat.le_trans hss.2 (Nat.le_add_right _ _)

theorem expire (h : Ok w) (hc : w.left < w.cur) : Ok w.expire := by
  have h' := h.congestion hc
  exact ⟨h'.len, h'.leftLt, h'.leftDvd, h'.curDvd, h'.curLe, h'.oldDvd, h'.oldLe, h'.sackSeq, h'.opened,
    h'.recovery, h'.newAck, fun _ => rfl, h'.sitePos, h'.siteLe, h'.ssthreshLt, h'.ssthresh, h'.doubled⟩

/-- What an ack may be: at the end of a packet, inside the block and with its share of growth. -/
structure Acks (inc seq : Nat) (w : SendWindow) : Prop where
  dvd : packetMaxDataLength ∣ seq
  le : w.left ≤ seq
  lt : seq < w.len
  inc : inc ≤ 2 * (seq - w.left)

variable {inc seq : Nat}

theorem third (h : Ok w) (ht : w.third seq) (hc : seq < w.cur) :
    Ok { (w.count seq).congestion with sack := true } := by
  have hs : w.left = seq := h.sackSeq.symm.trans ht.1
  have hcount : Ok (w.count seq) := by
    rw [SendWindow.count, if_neg (not_not.2 ht.1), ← hs]
    exact ⟨h.len, h.leftLt, h.leftDvd, h.curDvd, h.curLe, h.oldDvd, h.oldLe,
      h.sackSeq, h.opened, h.recovery, h.newAck, h.pending, h.sitePos, h.siteLe,
      h.ssthreshLt, h.ssthresh, h.doubled⟩
  have hlc : (w.count seq).left < (w.count seq).cur := by
    rw [SendWindow.count, if_neg (not_not.2 ht.1)]; exact hc
  have h' := hcount.congestion hlc
  have hss := ssthresh_congestion hcount.ssthreshLt
  exact ⟨h'.len, h'.leftLt, h'.leftDvd, h'.curDvd, h'.curLe, h'.oldDvd, h'.oldLe, h'.sackSeq, h'.opened,
    h'.recovery, h'.newAck, fun _ => rfl, h'.sitePos, h'.siteLe, h'.ssthreshLt,
    fun _ => ⟨hss.1, Nat.le_trans hss.2 (Nat.le_add_right _ _)⟩, h'.doubled⟩

/-- The ack that ends the recovery opens the window at the slow start threshold. -/
theorem recovers (h : Ok w) (ha : Acks inc seq w) (hr : w.recovers seq = true) :
    Ok (open_ { w.count seq with site := w.ssthresh, newAck := true }) := by
  simp only [SendWindow.recovers, Bool.and_eq_true, decide_eq_true_eq] at hr
  obtain ⟨⟨hne, hcur⟩, hin⟩ := hr
  obtain ⟨hpos, hle⟩ := h.ssthresh (.inr hin)
  have hle : w.ssthresh ≤ siteBound + 2 * seq := by have := ha.le; omega
  have hright : u64 (seq + w.ssthresh) = seq + w.ssthresh :=
    u64_left_add (Nat.lt_trans ha.lt h.len) hle
  rw [SendWindow.count, if_pos hne, SendWindow.open_, if_neg (by simp [hcur])]
  refine ⟨h.len, ha.lt, ha.dvd, h.curDvd, h.curLe, h.oldDvd, h.oldLe, rfl, ?_, ?_,
    fun _ => ⟨hcur, ?_⟩, h.pending, fun _ => hpos, hle, h.ssthreshLt, fun _ =>
      ⟨hpos, hle⟩, fun hlt => absurd hlt (Nat.lt_irrefl _)⟩
  · simp only [hright]; omega
  · simp [hcur]
  · simp [hcur]

/-- The window grows: by doubling unless that wraps to nothing, else by at most `inc`. -/
theorem site_grow (inc : Nat) (h : Ok w) :
    ((w.site < w.ssthresh → w.site ≠ 2 ^ 63) → 0 < w.site → 0 < (w.grow inc).site) ∧
      (w.grow inc).site ≤ siteBound + 2 * w.left + inc ∧
      (w.grow inc).ssthresh < 2 ^ 64 ∧
      ((w.grow inc).site < (w.grow inc).ssthresh → Doubled (w.grow inc).site) ∧
      (0 < w.ssthresh → w.ssthresh ≤ siteBound + 2 * w.left → 0 < (w.grow inc).ssthresh ∧
        (w.grow inc).ssthresh ≤ siteBound + 2 * w.left + inc) := by
  have hsite := h.siteLe
  have hlt : siteBound + 2 * w.left < 2 ^ 64 := by
    have := h.leftLt32
    simp only [siteBound]
    omega
  have hu : u64 (w.site + inc) = (w.site + inc) % 2 ^ 64 := by rw [u64]
  unfold SendWindow.grow
  split <;> rename_i hge <;> dsimp only
  · refine ⟨fun _ hpos => ?_, ?_, ?_, fun hn => absurd hn (Nat.lt_irrefl _), fun hp _ => ⟨?_, ?_⟩⟩ <;>
      (split <;> split <;> omega)
  · refine ⟨fun hne hpos => ?_, ?_, h.ssthreshLt, fun _ => ?_, fun hp hp' => ⟨hp, by omega⟩⟩
    · have := hne (by omega)
      rw [u64]
      omega
    · have := (h.doubled (by omega)).double.le
      omega
    · exact (h.doubled (by omega)).double

theorem count_eq (hr : ¬ w.recovers seq = true) :
    ∃ n, w.count seq = { w with left := seq, sackSeq := seq, same := n } := by
  unfold SendWindow.count
  by_cases hs : w.sackSeq = seq
  · exact ⟨_, by rw [if_neg (not_not.2 hs), ← hs]⟩
  · refine ⟨1, ?_⟩
    rw [if_pos hs]
    cases hin : w.inSack with
    | false => rfl
    | true =>
      have hcur : ¬ w.cur ≤ seq := fun hcur => hr (by simp [SendWindow.recovers, hs, hcur, hin])
      simp [hcur]

theorem grow_moved (inc n : Nat) (w : SendWindow) :
    SendWindow.grow inc { w with left := seq, sackSeq := seq, same := n } =
      { w.grow inc with left := seq, sackSeq := seq, same := n } := by
  unfold SendWindow.grow
  dsimp only
  split <;> rfl

theorem grow_rest (inc : Nat) (w : SendWindow) :
    w.grow inc = { w with site := (w.grow inc).site, ssthresh := (w.grow inc).ssthresh } := by
  unfold SendWindow.grow
  split <;> rfl

theorem grow (h : Ok w) (ha : Acks inc seq w) (hr : ¬ w.recovers seq = true)
    (hsite : w.inSack = false → w.site < w.ssthresh → w.site ≠ 2 ^ 63) :
    Ok (open_ (SendWindow.grow inc (w.count seq))) := by
  obtain ⟨n, hn⟩ := count_eq hr
  obtain ⟨hpos, hle, hlt, hdoubled, hss⟩ := h.site_grow inc
  obtain ⟨hdvd, hleft, hlen, hinc⟩ := ha
  rw [hn, grow_moved, grow_rest]
  revert hpos hle hlt hdoubled hss
  generalize (w.grow inc).site = site, (w.grow inc).ssthresh = ssthresh
  intro hpos hle hlt hdoubled hss
  have hle : site ≤ siteBound + 2 * seq := by omega
  have hss : w.sack = true ∨ w.inSack = true → 0 < ssthresh ∧ ssthresh ≤ siteBound + 2 * seq :=
      fun hp => by
    have := hss (h.ssthresh hp).1 (h.ssthresh hp).2
    omega
  have hnew : w.newAck = true → w.cur ≤ seq ∧ w.inSack = false := fun hn =>
    ⟨Nat.le_trans (h.newAck hn).1 hleft, (h.newAck hn).2⟩
  unfold SendWindow.open_
  by_cases hin : w.inSack = true
  · -- the right cursor stays; the ack is an old one or below the current cursor
    have hright : seq < w.right := by
      by_cases hs : w.sackSeq = seq
      · rw [← hs, h.sackSeq]; exact h.opened
      · refine h.recovery hin seq hdvd hleft (Nat.lt_of_not_le fun hcur => hr ?_)
        simp [SendWindow.recovers, hs, hcur, hin]
    rw [if_pos hin]
    exact ⟨h.len, hlen, hdvd, h.curDvd, h.curLe, h.oldDvd, h.oldLe, rfl, hright,
      fun _ m hm hlm hmc => h.recovery hin m hm (Nat.le_trans hleft hlm) hmc, hnew, h.pending,
      fun hs => absurd (hin.symm.trans hs) (by decide), hle, hlt, hss, hdoubled⟩
  · have hin' : w.inSack = false := by simpa using hin
    have hpos := hpos (hsite hin') (h.sitePos hin')
    rw [if_neg hin]
    refine ⟨h.len, hlen, hdvd, h.curDvd, h.curLe, h.oldDvd, h.oldLe, rfl, ?_,
      fun hs => absurd hs hin, hnew, h.pending, fun _ => hpos, hle, hlt, hss, hdoubled⟩
    simp only [u64_left_add (Nat.lt_trans hlen h.len) hle]
    omega

theorem ack (h : Ok w) (ha : Acks inc seq w) (ht : w.third seq → seq < w.cur)
    (hsite : ¬ w.third seq → w.inSack = false → w.site < w.ssthresh → w.site ≠ 2 ^ 63) :
    Ok (w.ack inc seq) := by
  rw [SendWindow.ack]
  split
  · exact h.third ‹_› (ht ‹_›)
  · split
    · exact h.recovers ha ‹_›
    · exact h.grow ha ‹_› (hsite ‹_›)

end Ok

theorem Ok.start {a : SendArgs} (ha : a.WF) (hlen : smallFileMaxSize < a.blockLength) (id0 id1 : Nat) :
    Ok (newWriter a id0 id1).window := by
  have hpos : 0 < a.blockLength := Nat.lt_of_le_of_lt (Nat.zero_le _) hlen
  have hw : (newWriter a id0 id1).window =
      ⟨0, a.blockLength, 0, 0, packetMaxDataLength, packetMaxDataLength,
        a.defaultSSTHRESH, a.maxWindowSize, 0, 0, false, false, false, false⟩ := by
    simp only [newWriter, if_neg (Nat.not_le.2 hlen)]
    simp [window, construct]
  rw [hw]
  refine ⟨ha.length, hpos, dvd_zero _, dvd_zero _, Nat.zero_le _, dvd_zero _, Nat.zero_le _, rfl, ?_,
    fun h => (by cases h), fun h => (by cases h), fun h =>
      (by rcases h with h | h <;> cases h), fun _ => ?_, ?_,
    ha.ssthresh, fun h => (by rcases h with h | h <;> cases h), fun _ => .init⟩
  all_goals simp [siteBound]

end SendWindow

/-! ### Whole handlers -/

section handlers
variable {c : Connection}

theorem window_connectionDoSender (hk : c.kind = .complexWriter) (hstop : c.has forceStopBit = false)
    (clock : Nat → Nat) :
    wp (connectionDoSender clock) (fun _ c' _ => MovesTo c c.window.send c') c := by
  rw [connectionDoSender, wp_bind]
  have h0 : wp (ConM.testAndReset rebackSenderBit)
      (fun _ c' es => SameWindow c c' es ∧ Quiet c c' es) c :=
    ⟨sameWindow.reset (by decide) (by decide) c, quiet_testAndReset (by decide) (by decide) c⟩
  refine wp_mono _ h0 fun _ c₁ es₁ hrun => ?_
  obtain ⟨h1, hq⟩ := hrun
  rw [wp_bind, doSend, wp_bind, wp_get, hq.source.kind, hk]
  have hstop₁ : c₁.has forceStopBit = false := (hq.bits _ (by decide)).trans hstop
  refine wp_mono _ (window_doSend hstop₁ clock) fun _ c₂ _ h2 => ?_
  have hrest : Keeps SameWindow (do
      let _ ← ConM.testAndReset inSenderBit
      let back ← ConM.testAndReset rebackSenderBit
      Handler.when (back = 1) ConM.addToSenderQueue : ConM Unit) :=
    sameWindow.bind (sameWindow.reset (by decide) (by decide)) fun _ =>
    sameWindow.bind (sameWindow.reset (by decide) (by decide)) fun _ =>
      sameWindow.when sameWindow.addToSenderQueue
  refine wp_mono _ (hrest c₂) fun _ c₃ _ h3 => ?_
  rw [h1.1] at h2
  exact ⟨h3.1.trans h2.1, h3.2.trans (h2.2.trans h1.2)⟩

theorem window_connectionDoNetworkData (hk : c.kind = .complexWriter)
    (hlock : c.has doingAckBit = false)
    (hlen : 0 < c.transmitBufLength ∧ c.transmitBufLength < 2 ^ 32) (inc now : Nat) {d : Datagram}
    (len : Int) (hfin : ¬ c.finalAck d.dtNote) :
    wp (connectionDoNetworkData inc now d len) (fun _ c' _ => c'.has doingAckBit = false ∧
      if c.leftWindowCursor ≤ d.dtNote then d.dtNote < c.transmitBufLength ∧
      c'.window = c.window.ack inc d.dtNote
      else c'.window = c.window) c := by
  have hpeer : Keeps SameWindow (Handler.when (d.dtNote = packetMaxDataLength)
      (adoptPeer d.msgType d.fromId)) :=
    sameWindow.when (sameWindow.adoptPeer (fun _ _ _ => ⟨rfl, rfl⟩) _ _)
  have hpeer' : Keeps Quiet (Handler.when (d.dtNote = packetMaxDataLength)
      (adoptPeer d.msgType d.fromId)) :=
    quiet.when (quiet.adoptPeer Quiet.erase _ _)
  rw [connectionDoNetworkData, wp_bind]
  refine wp_mono _ (wp_and _ (hpeer c) (hpeer' c)) fun _ c₁ _ hrun => ?_
  obtain ⟨h1, hq⟩ := hrun
  have hleft : c₁.leftWindowCursor = c.leftWindowCursor := congrArg SendWindow.left h1.1
  rw [doNetworkData, wp_bind, wp_get, hq.source.kind, hk]
  have hlock₁ : c₁.has doingAckBit = false := h1.2.trans hlock
  by_cases hle : c.leftWindowCursor ≤ d.dtNote
  · have hlt : d.dtNote < c.transmitBufLength := by
      refine Nat.lt_of_not_le fun hge => hfin ⟨hle, ?_⟩
      rw [sub32_of_le hlen.2 hlen.1]
      omega
    refine wp_mono _ (window_ack hlock₁ inc now d.sendTime (hleft ▸ hle) ?_) fun _ c₂ _ h2 =>
      ⟨h2.2.trans hlock₁, ?_⟩
    · rw [hq.source.length]; exact fun hgt => hfin ⟨hle, hgt⟩
    · rw [if_pos hle, ← h1.1]
      exact ⟨hlt, h2.1⟩
  · simp only [if_neg hle]
    show wp (ComplexConnection.writerConnectionDoNetworkData inc now d.dtNote d.sendTime) _ c₁
    rw [ComplexConnection.writerConnectionDoNetworkData, wp_bind, wp_modify, wp_bind,
      wp_setConnectionLeftWindowCursor, if_neg (by rw [hleft]; exact hle), wp_when, if_neg (by simp)]
    exact ⟨hlock₁, h1.1⟩

theorem window_doTimeOut (hk : c.kind = .complexWriter) (hlock : c.has doingAckBit = false)
    {t : TimerType} (ht : t ≠ .connectionSuspendTimer) {rc : Nat} (hsev : ¬ c.seventhTimeOut t rc) :
    wp (doTimeOut t rc) (fun _ c' _ => MovesTo c
      (if t = .senderKeepingTimer ∧ c.runningCount = rc then c.window.expire else c.window) c') c := by
  rw [doTimeOut, wp_bind, wp_get, hk]
  by_cases hkeep : t = .senderKeepingTimer
  · subst hkeep
    by_cases hrc : c.runningCount = rc
    · rw [if_pos ⟨rfl, hrc⟩]
      exact window_timeOut hlock hrc fun h => hsev ⟨rfl, hrc, h⟩
    · rw [if_neg fun h => hrc h.2]
      show wp (ComplexConnection.writerConnectionDoTimeOut .senderKeepingTimer rc) _ c
      rw [ComplexConnection.writerConnectionDoTimeOut, wp_bind, wp_get, wp_when, if_neg hrc]
      exact ⟨rfl, rfl⟩
  · rw [if_neg fun h => hkeep h.1]
    cases t
    case senderKeepingTimer => exact absurd rfl hkeep
    case connectionSuspendTimer => exact absurd rfl ht
    all_goals exact ⟨rfl, rfl⟩

end handlers

/-! ### The machine -/

namespace OpenWindow
open SendWindow

/-- One writer and the acks of honest readers. -/
def machine (a : SendArgs) (id0 id1 : Nat) : Machine Life Life.Act where
  init l := l = Life.startSender a id0 id1
  step l act := if l.Honest act then l.step act else none

/-- While the transfer goes on, the window has room past its left cursor. -/
def WindowOpen (l : Life) : Prop :=
  l.slot = .live → l.con.leftWindowCursor < l.con.transmitBufLength →
    l.con.leftWindowCursor < l.con.rightWindowCursor

/-- The step finds the cursor where congestion can go back to it: neither it nor the ack has wrapped, a
third equal ack or a timeout comes while it is past the left one, and the window size is not one that
doubles to nothing. -/
def Timely (l : Life) (act : Life.Act) : Prop :=
  packetMaxDataLength ∣ l.con.currentWindowCursor ∧
    match act with
    | .networkData _ _ d _ =>
      packetMaxDataLength ∣ d.dtNote ∧
      (l.con.window.third d.dtNote → d.dtNote < l.con.currentWindowCursor) ∧
      (¬ l.con.window.third d.dtNote → l.con.has stillDoingSackBit = false →
        l.con.windowSite < l.con.windowSsthresh → l.con.windowSite ≠ 2 ^ 63)
    | .timeOut j =>
      (∃ p ∈ l.timers[j]?, p = (.senderKeepingTimer, l.con.runningCount)) →
        l.con.tryTime + 1 ≠ sendTryTime → l.con.leftWindowCursor < l.con.currentWindowCursor
    | _ => True

instance (l : Life) (act : Life.Act) : Decidable (Timely l act) := by
  unfold Timely
  cases act <;> infer_instance

/-- The invariant of a writer that is sending. -/
structure Inv (l : Life) : Prop where
  sending : l.Sending
  kind : l.con.kind = .complexWriter
  lock : l.con.has doingAckBit = false
  opened : l.con.leftWindowCursor < l.con.rightWindowCursor
  ok : packetMaxDataLength ∣ l.con.currentWindowCursor → Ok l.con.window

section inv
variable {l l' : Life} {act : Life.Act}

theorem Inv.ran (h : Inv l) {x : ConM Unit} {w : SendWindow}
    (hx : wp x (fun _ c' es => Quiet l.con c' es) l.con)
    (hw : wp x (fun _ c' _ => MovesTo l.con w c') l.con) (hopen : w.left < w.right)
    (hok : packetMaxDataLength ∣ w.cur → Ok w) : Inv (l.ran x) := by
  have hw : (l.ran x).con.window = w ∧ (l.ran x).con.has doingAckBit = l.con.has doingAckBit := by
    rw [Life.con_ran]; exact hw
  refine ⟨h.sending.ran hx, ?_, hw.2.trans h.lock, ?_, ?_⟩
  · rw [Life.con_ran]; exact hx.source.kind.trans h.kind
  · rw [← hw.1] at hopen; exact hopen
  · rw [hw.1]
    exact fun hd => hok (by rw [← hw.1]; exact hd)

theorem Inv.step (h : Inv l) (hc : Timely l act) (hh : l.Honest act) (hs : l.step act = some l')
    (hl : l'.slot = .live) : Inv l' := by
  obtain ⟨hdvd, hc⟩ := hc
  have hok := h.ok hdvd
  obtain ⟨inc, now, d, len, rfl, hfin, -, rfl, hx⟩ | ⟨j, t, rc, rfl, ht, hsev, rfl, hx⟩ |
      ⟨clock, rfl, -, rfl, hx⟩ :=
    h.sending.step_cases hs hl
  · obtain ⟨hack, hthird, hsite⟩ := hc
    have hlen : 0 < l.con.transmitBufLength := Nat.lt_of_le_of_lt (Nat.zero_le _) hok.leftLt
    have hw := window_connectionDoNetworkData h.kind h.lock ⟨hlen, hok.len⟩ inc now len hfin
    by_cases hle : l.con.leftWindowCursor ≤ d.dtNote
    · simp only [if_pos hle] at hw
      have hok' := hok.ack ⟨hack, hle, hw.2.1, hh.2⟩ hthird hsite
      exact h.ran hx ⟨hw.2.2, hw.1.trans h.lock.symm⟩ hok'.opened fun _ => hok'
    · simp only [if_neg hle] at hw
      exact h.ran hx ⟨hw.2, hw.1.trans h.lock.symm⟩ h.opened fun _ => hok
  · have htimer : t ≠ .connectionSuspendTimer := h.sending.timers _ (List.mem_of_getElem? ht)
    have hw := window_doTimeOut h.kind h.lock htimer hsev
    have he : Inv { l with timers := l.timers.eraseIdx j } :=
      ⟨h.sending.eraseTimer j, h.kind, h.lock, h.opened, h.ok⟩
    by_cases hkeep : t = .senderKeepingTimer ∧ l.con.runningCount = rc
    · simp only [if_pos hkeep] at hw
      obtain ⟨rfl, rfl⟩ := hkeep
      have hlt := hc ⟨_, ht, rfl⟩ fun htry => hsev ⟨rfl, rfl, htry⟩
      exact he.ran hx hw (hok.expire hlt).opened fun _ => hok.expire hlt
    · simp only [if_neg hkeep] at hw
      exact he.ran hx hw h.opened fun _ => hok
  · have hw := window_connectionDoSender h.kind h.sending.stop clock
    have he : Inv { l with queued := l.queued - 1 } :=
      ⟨h.sending.dequeue _, h.kind, h.lock, h.opened, h.ok⟩
    rcases hok.send with hsend | ⟨j, hsend⟩
    · exact he.ran hx hw hsend.opened fun _ => hsend
    · exact he.ran hx hw hsend.1 fun hd => absurd hd hsend.not_dvd

theorem inv_init {a : SendArgs} (ha : a.WF) (hlen : smallFileMaxSize < a.blockLength) (id0 id1 : Nat) :
    Inv (Life.startSender a id0 id1) := by
  have hok := Ok.start ha hlen id0 id1
  have hw : wp ConM.addToSenderQueue (fun _ c' es => SameWindow (newWriter a id0 id1) c' es ∧
      Quiet (newWriter a id0 id1) c' es) (newWriter a id0 id1) :=
    ⟨sameWindow.addToSenderQueue _, quiet.addToSenderQueue _⟩
  have hcon : (Life.startSender a id0 id1).con.window = (newWriter a id0 id1).window := by
    rw [Life.startSender, Life.con_ran]; exact hw.1.1
  refine ⟨.start a id0 id1, ?_, ?_, ?_, fun _ => hcon ▸ hok⟩
  · rw [Life.startSender, Life.con_ran]
    refine hw.2.source.kind.trans ?_
    rw [newWriter, if_neg (Nat.not_le.2 hlen)]
    rfl
  · rw [Life.startSender, Life.con_ran]
    refine hw.1.2.trans ?_
    rw [newWriter, if_neg (Nat.not_le.2 hlen)]
    simp [construct]
  · have := hok.opened
    rw [← hcon] at this
    exact this

end inv

/-- As long as every step is timely, the send window of a complex writer does not close. -/
theorem windowOpen_of_timely {a : SendArgs} {id0 id1 : Nat} (ha : a.WF)
    (hlen : smallFileMaxSize < a.blockLength) {l : Life}
    (h : (machine a id0 id1).ReachUnder Timely l) : WindowOpen l := by
  have hinv : l.slot = .live → Inv l := by
    refine h.invariant (I := fun l => l.slot = .live → Inv l) ?_ ?_
    · intro s hs _
      cases hs
      exact inv_init ha hlen id0 id1
    · intro s act s' ih hc hs hl
      simp only [machine] at hs
      split at hs
      · exact (ih (Life.live_of_step hs hl)).step hc ‹_› hs hl
      · cases hs
  exact fun hl _ => (hinv hl).opened

/-- A sender run, an ack of its packet, a timeout and the next sender run. -/
theorem windowOpen_of_timely_acked :
    ∃ l, (machine shortestComplex 1 0).ReachUnder Timely l ∧ l.slot = .live ∧
      l.con.leftWindowCursor = 1452 ∧
      WindowOpen l := by
  have hrun : ((machine shortestComplex 1 0).runUnder Timely (Life.startSender shortestComplex 1 0)
      [.sender fun _ => 0, .networkData 0 0 ⟨.complexFileAck, 1, 2, 0, 1452, []⟩ 0,
        .sender fun _ => 0, .timeOut 1, .sender fun _ => 0]).map
        (fun l => (l.slot, l.con.leftWindowCursor)) = some (.live, 1452) := by decide +kernel
  obtain ⟨l, hl, hfin⟩ := Option.map_eq_some_iff.1 hrun
  simp only [Prod.mk.injEq] at hfin
  have hreach := Machine.ReachUnder.run (.init rfl) hl
  exact ⟨l, hreach, hfin.1, hfin.2, windowOpen_of_timely shortestComplex_wf (by decide) hreach⟩

/-- Three equal acks of the first packet come in before the sender has run again: the cursor stands at
the left one, and the window closes. -/
theorem exists_closedWindow :
    ¬ ∀ (a : SendArgs) (id0 id1 : Nat), a.WF → smallFileMaxSize < a.blockLength →
      ∀ l, (machine a id0 id1).Reach l → WindowOpen l := by
  intro hall
  have hrun : ((machine shortestComplex 1 0).run (Life.startSender shortestComplex 1 0)
      ([.sender fun _ => 0] ++ List.replicate 3
        (.networkData 0 0 ⟨.complexFileAck, 1, 2, 0, 1452, []⟩ 0))).map (fun l =>
          (l.slot, l.con.leftWindowCursor, l.con.transmitBufLength, l.con.rightWindowCursor)) =
      some (.live, 1452, 23233, 1452) := by decide +kernel
  obtain ⟨l, hl, hfin⟩ := Option.map_eq_some_iff.1 hrun
  simp only [Prod.mk.injEq] at hfin
  obtain ⟨hslot, hleft, hlen, hright⟩ := hfin
  have hreach := Machine.ReachUnder.run (.init rfl) hl
  have := hall _ _ _ shortestComplex_wf (by decide) l hreach hslot
  omega

end OpenWindow

end Resend.Udp
