import Resend.Udp.OpenWindow
import Resend.Udp.WriterCursors
import Resend.Udp.AckRuns

/-!
# The lengths a complex transfer can count

Cursors and acks are 32 bits wide. A writer that nothing sends back goes through the packets in
order; its cursor is the true multiple of 1452 as long as the block ends before the last packet
boundary below `2 ^ 32`. For a longer block the boundary after the last packet wraps to 788, in the
cursor of the writer and in the ack of the reader.
-/

namespace Resend.Udp
open Handler Connection ConM

/-- The number of packets of a block. -/
def packetCount (len : Nat) : Nat := (len + packetMaxDataLength - 1) / packetMaxDataLength

theorem lt_packetCount_iff {len p : Nat} : p < packetCount len ↔ p * packetMaxDataLength < len := by
  simp only [packetCount, packetMaxDataLength]
  omega

theorem packetCount_le {len : Nat} : len ≤ packetCount len * packetMaxDataLength := by
  simp only [packetCount, packetMaxDataLength]
  omega

theorem packetCount_mul_le {len : Nat} (hlen : len ≤ maxCursor) :
    packetCount len * packetMaxDataLength ≤ maxCursor := by
  simp only [packetCount, packetMaxDataLength, maxCursor] at *
  omega

theorem packetCount_of_gt {len : Nat} (hlen : maxCursor < len) (hlt : len < 2 ^ 32) :
    packetCount len = 2957967 := by
  simp only [packetCount, packetMaxDataLength, maxCursor] at *
  omega

/-! ### What a sender run sends -/

/-- No data packet goes out. -/
def Silent (_ _ : Connection) (es : List Effect) : Prop := es.filterMap Effect.dataSeq = []

theorem silent : ConFrame Silent where
  refl _ := rfl
  trans {_ _ _ es es'} h h' := by
    show (es ++ es').filterMap Effect.dataSeq = []
    rw [List.filterMap_append, show es.filterMap Effect.dataSeq = [] from h,
      show es'.filterMap Effect.dataSeq = [] from h']
    rfl
  times _ := rfl
  set _ _ := keeps_modifyGet fun _ => rfl
  reset _ _ := keeps_modifyGet fun _ => rfl
  bookkeeping {e c} he := by cases e <;> first | rfl | cases he

theorem Silent.bit {k : Nat} : Keeps Silent (ConM.testAndReset k) := keeps_modifyGet fun _ => rfl

theorem Moves.silent_data {seq : Nat} {c c' : Connection} {es : List Effect} (h : Moves seq c c' es) :
    Silent c c' es := by
  refine List.filterMap_eq_nil_iff.2 fun e he => ?_
  cases e with
  | kernelSend d addr =>
    obtain ⟨t, _, _, _, _, _⟩ := d
    have ht : t = .transReset := h.silent _ addr he
    subst ht
    rfl
  | _ => rfl

section packets
variable {c : Connection}

theorem buildAndSend_dataSeq (hcur : c.currentWindowCursor < 2 ^ 32) (now : Nat) :
    wp (ComplexConnection.buildAndSend now) (fun _ _ es =>
      es.filterMap Effect.dataSeq = [c.currentWindowCursor]) c := by
  refine wp_mono _ (buildAndSend_packet now c) fun _ _ es h => ?_
  obtain ⟨t, rfl, ht⟩ := h
  by_cases hz : c.currentWindowCursor = 0
  · rw [if_pos hz] at ht
    rcases ht with rfl | rfl <;> simp [Effect.dataSeq, hz]
  · rw [if_neg hz] at ht
    subst ht
    simp only [if_neg hz, List.filterMap_cons, List.filterMap_nil, Effect.dataSeq, u32_of_lt hcur]

/-- `w` after `k` packets in order. -/
def SendWindow.after (w : SendWindow) (k : Nat) : SendWindow :=
  { w with cur := w.cur + k * packetMaxDataLength }

theorem SendWindow.after_zero (w : SendWindow) : w.after 0 = w := by
  rw [after, Nat.zero_mul, Nat.add_zero]

/-- A part of a sender run sends the next `k` packets of the block, in order. -/
def SendsNext (c c' : Connection) (es : List Effect) : Prop :=
  ∃ k, MovesTo c (c.window.after k) c' ∧
    es.filterMap Effect.dataSeq = (List.range k).map (fun i => c.window.cur + i * packetMaxDataLength) ∧
    ∀ i < k, c.window.cur + i * packetMaxDataLength < c.window.len

theorem SendsNext.of_silent {c' : Connection} {es : List Effect} (h : SameWindow c c' es)
    (h' : Silent c c' es) :
    SendsNext c c' es :=
  ⟨0, ⟨h.1.trans c.window.after_zero.symm, h.2⟩, h', fun i hi => absurd hi (Nat.not_lt_zero i)⟩

theorem SendsNext.trans_silent {c' c'' : Connection} {es es' : List Effect} (h : SendsNext c c' es)
    (hw : SameWindow c' c'' es') (hs : Silent c' c'' es') : SendsNext c c'' (es ++ es') := by
  obtain ⟨k, hk, hes, hlt⟩ := h
  refine ⟨k, hk.same hw, ?_, hlt⟩
  rw [List.filterMap_append, hes, show es'.filterMap Effect.dataSeq = [] from hs, List.append_nil]

theorem SendsNext.after_silent {c' c'' : Connection} {es es' : List Effect}
    (hw : SameWindow c c' es) (hs : Silent c c' es) (h : SendsNext c' c'' es') :
    SendsNext c c'' (es ++ es') := by
  obtain ⟨k, hk, hes, hlt⟩ := h
  rw [hw.1] at hk hes hlt
  refine ⟨k, ⟨hk.1, hk.2.trans hw.2⟩, ?_, hlt⟩
  rw [List.filterMap_append, hes, show es.filterMap Effect.dataSeq = [] from hs, List.nil_append]

theorem SendsNext.cons {c' c'' : Connection} {es es' : List Effect}
    (hc' : MovesTo c (c.window.after 1) c') (hes : es.filterMap Effect.dataSeq = [c.window.cur])
    (hlt : c.window.cur < c.window.len) (h : SendsNext c' c'' es') :
    SendsNext c c'' (es ++ es') := by
  obtain ⟨k, hk, hes', hlt'⟩ := h
  have hcur : c'.window.cur = c.window.cur + 1 * packetMaxDataLength := by rw [hc'.1]; rfl
  have hlen : c'.window.len = c.window.len := by rw [hc'.1]; rfl
  have hstep : ∀ i, c'.window.cur + i * packetMaxDataLength =
      c.window.cur + (i + 1) * packetMaxDataLength := by
    intro i
    rw [hcur, Nat.add_mul, Nat.add_assoc, Nat.add_comm (i * _)]
  refine ⟨k + 1, ⟨hk.1.trans ?_, hk.2.trans hc'.2⟩, ?_, fun i hi => ?_⟩
  · rw [hc'.1]
    simp only [SendWindow.after, Nat.add_mul, Nat.add_assoc, Nat.add_comm (k * packetMaxDataLength)]
  · rw [List.filterMap_append, hes, hes', List.range_succ_eq_map, List.map_cons, List.map_map,
      Nat.zero_mul, Nat.add_zero]
    exact congrArg (c.window.cur :: ·) (List.map_congr_left fun i _ => hstep i)
  · cases i with
    | zero => rwa [Nat.zero_mul, Nat.add_zero]
    | succ i =>
      rw [← hstep, ← hlen]
      exact hlt' i (Nat.lt_of_succ_lt_succ hi)

theorem sameWindow_process (hs : c.window.Settled) :
    wp ComplexConnection.processSenderMsgBit (fun _ c' es =>
      SameWindow c c' es ∧ Silent c c' es) c := by
  refine wp_mono _ (wp_and _ window_process (process_silent c)) fun _ c' es h =>
    ⟨⟨h.1.1.trans ?_, h.1.2⟩, ?_⟩
  · exact SendWindow.process_eq hs
  · rw [Silent, h.2, List.filterMap_nil]

theorem sendsNext_loop (clock : Nat → Nat) (n : Nat) (hs : c.window.Settled)
    (hd : packetMaxDataLength ∣ c.window.cur) (hmax : c.window.len ≤ maxCursor) :
    wp (ComplexConnection.sendLoop clock n) (fun _ c' es => SendsNext c c' es) c := by
  have hend : wp ComplexConnection.armKeepingTimer (fun _ c' es => SendsNext c c' es) c :=
    .of_silent (sameWindow.armKeepingTimer c) (silent.armKeepingTimer c)
  induction n generalizing c with
  | zero =>
    rw [ComplexConnection.sendLoop, wp_bind, wp_get, wp_ite]
    split
    · rw [wp_bind]
      refine wp_mono _ (sameWindow_process hs) fun _ c₁ es₁ h1 => ?_
      refine wp_mono _ (wp_and _ (sameWindow.rebackSender c₁)
        (silent.rebackSender c₁)) fun _ c₂ es₂ h2 => ?_
      show SendsNext c c₂ (es₁ ++ es₂)
      exact .of_silent (sameWindow.trans h1.1 h2.1) (silent.trans h1.2 h2.2)
    · exact hend
  | succ n ih =>
    rw [ComplexConnection.sendLoop, wp_bind, wp_get, wp_ite]
    split
    · rename_i hcan
      have hlt : c.window.cur < c.window.len := hcan.2
      have hfit : c.window.cur + packetMaxDataLength < 2 ^ 32 := by
        obtain ⟨k, hk⟩ := hd
        simp only [maxCursor, packetMaxDataLength] at *
        omega
      rw [wp_bind]
      refine wp_mono _ (sameWindow_process hs) fun _ c₁ es₁ h1 => ?_
      rw [wp_bind]
      have hw₁ : c₁.window = c.window := h1.1.1
      have hfit₁ : c₁.window.cur + packetMaxDataLength < 2 ^ 32 := by rw [hw₁]; exact hfit
      have hsend := buildAndSend_dataSeq (c := c₁)
        (Nat.lt_of_le_of_lt (Nat.le_add_right _ _) hfit₁) (clock n)
      refine wp_mono _ (wp_and _ (SameWindow.buildAndSend (clock n) c₁) hsend) fun _ c₂ es₂ hrun => ?_
      obtain ⟨h2, hes₂⟩ := hrun
      rw [wp_bind, ComplexConnection.advanceCursor, wp_modify]
      obtain ⟨c₃, hc₃⟩ : ∃ c₃, { c₂ with
        currentWindowCursor := u32 (c₂.currentWindowCursor + packetMaxDataLength) } = c₃ :=
        ⟨_, rfl⟩
      have hw₃ : c₃.window = c₁.window.after 1 := by
        have hadv : c₃.window = c₂.window.advance := by rw [← hc₃]; rfl
        rw [hadv, h2.1, SendWindow.advance, u32_of_lt hfit₁, SendWindow.after, Nat.one_mul]
      have hmoves : MovesTo c₁ (c₁.window.after 1) c₃ := ⟨hw₃, Eq.trans (by rw [← hc₃]) h2.2⟩
      have hs₃ : c₃.window.Settled := by rw [hw₃, hw₁]; exact hs
      have hd₃ : packetMaxDataLength ∣ c₃.window.cur := by
        rw [hw₃, hw₁]
        exact Dvd.dvd.add hd (Dvd.intro_left 1 rfl)
      have hmax₃ : c₃.window.len ≤ maxCursor := by rw [hw₃, hw₁]; exact hmax
      rw [hc₃]
      refine wp_mono _ (ih hs₃ hd₃ hmax₃ ?_) fun _ c₄ es₄ h4 => ?_
      · exact .of_silent (sameWindow.armKeepingTimer c₃) (silent.armKeepingTimer c₃)
      · show SendsNext c c₄ (es₁ ++ (es₂ ++ es₄))
        exact .after_silent h1.1 h1.2 (.cons hmoves hes₂ (by rw [hw₁]; exact hlt) h4)
    · exact hend

theorem sendsNext_connectionDoSender (hk : c.kind = .complexWriter)
    (hstop : c.has forceStopBit = false) (hs : c.window.Settled)
    (hd : packetMaxDataLength ∣ c.window.cur) (hmax : c.window.len ≤ maxCursor) (clock : Nat → Nat) :
    wp (connectionDoSender clock) (fun _ c' es => SendsNext c c' es) c := by
  have hback : wp (ConM.testAndReset rebackSenderBit)
      (fun _ c' es => (SameWindow c c' es ∧ Silent c c' es) ∧ Quiet c c' es) c :=
    ⟨⟨sameWindow.reset (by decide) (by decide) c, Silent.bit c⟩,
      quiet_testAndReset (by decide) (by decide) c⟩
  rw [connectionDoSender, wp_bind]
  refine wp_mono _ hback fun _ c₁ es₁ hrun => ?_
  obtain ⟨h1, hq⟩ := hrun
  have hw₁ : c₁.window = c.window := h1.1.1
  have hstop₁ : ¬ (if c₁.has forceStopBit then (1 : Int) else 0) = 1 := by
    rw [hq.bits _ (by decide), hstop]
    decide
  have hs₁ : c₁.window.Settled := by rw [hw₁]; exact hs
  rw [wp_bind, doSend, wp_bind, wp_get, hq.source.kind, hk]
  show wp (ComplexConnection.writerConnectionDoSend clock) _ c₁
  rw [ComplexConnection.writerConnectionDoSend, wp_bind, wp_bitTest (by decide),
    wp_ite, if_neg hstop₁, wp_bind]
  refine wp_mono _ (sameWindow_process hs₁) fun _ c₂ es₂ h2 => ?_
  have hw₂ : c₂.window = c.window := h2.1.1.trans hw₁
  refine wp_mono _ (sendsNext_loop (c := c₂) clock 16 ?_ ?_ ?_) fun _ c₃ es₃ h3 => ?_
  any_goals
    rw [hw₂]
    assumption
  have hrest : Keeps SameWindow (do
      let _ ← ConM.testAndReset inSenderBit
      let back ← ConM.testAndReset rebackSenderBit
      Handler.when (back = 1) ConM.addToSenderQueue : ConM Unit) :=
    sameWindow.bind (sameWindow.reset (by decide) (by decide)) fun _ =>
    sameWindow.bind (sameWindow.reset (by decide) (by decide)) fun _ =>
      sameWindow.when sameWindow.addToSenderQueue
  have hquiet : Keeps Silent (do
      let _ ← ConM.testAndReset inSenderBit
      let back ← ConM.testAndReset rebackSenderBit
      Handler.when (back = 1) ConM.addToSenderQueue : ConM Unit) :=
    silent.bind .bit fun _ => silent.bind .bit fun _ => silent.when silent.addToSenderQueue
  refine wp_mono _ (wp_and _ (hrest c₃) (hquiet c₃)) fun _ c₄ es₄ h4 => ?_
  show SendsNext c c₄ (es₁ ++ ((es₂ ++ es₃) ++ es₄))
  exact .after_silent h1.1 h1.2 (.trans_silent (.after_silent h2.1 h2.2 h3) h4.1 h4.2)

end packets

/-! ### A writer that nothing sends back -/

/-- No message for the sender, and no recovery. -/
structure SendWindow.Steady (w : SendWindow) : Prop where
  settled : w.Settled
  inSack : w.inSack = false

theorem SendWindow.Steady.ack {w : SendWindow} (h : w.Steady) {inc seq : Nat} (ht : ¬ w.third seq) :
    (w.ack inc seq).Steady ∧ (w.ack inc seq).cur = w.cur ∧ (w.ack inc seq).len = w.len ∧
      (w.ack inc seq).left = seq := by
  obtain ⟨⟨h1, h2, h3⟩, hin⟩ := h
  have hr : ¬ w.recovers seq = true := by simp [recovers, hin]
  have hclosed : ¬ w.inSack = true := by simp [hin]
  obtain ⟨n, hn⟩ := @Ok.count_eq w seq hr
  rw [SendWindow.ack, if_neg ht, if_neg hr, hn, Ok.grow_moved, Ok.grow_rest, open_, if_neg hclosed]
  exact ⟨⟨⟨h1, h2, h3⟩, hin⟩, rfl, rfl, rfl⟩

/-- Everything that went out so far, in order. -/
def Life.dataSeqs (l : Life) : List Nat :=
  l.history.reverse.flatMap fun es => es.filterMap Effect.dataSeq

theorem Life.dataSeqs_ran (l : Life) (x : ConM Unit) :
    (l.ran x).dataSeqs = l.dataSeqs ++ (exec x l.con).2.filterMap Effect.dataSeq := by
  rw [dataSeqs, history_ran, List.reverse_cons, List.flatMap_append, List.flatMap_singleton]
  rfl

namespace TransferRange
open SendWindow

def machine (a : SendArgs) (id0 id1 : Nat) : Machine Life Life.Act where
  init l := l = Life.startSender a id0 id1
  step := Life.step

/-- The step does not send the writer back: the ack is no third equal one, the timer not the keeping
timer of the last run. -/
def InOrder (l : Life) : Life.Act → Prop
  | .networkData _ _ d _ => ¬ l.con.window.third d.dtNote
  | .timeOut j => ∀ p ∈ l.timers[j]?, p ≠ (.senderKeepingTimer, l.con.runningCount)
  | _ => True

/-- The writer has sent the first `n` packets. -/
structure Sent (a : SendArgs) (l : Life) (n : Nat) : Prop where
  sending : l.Sending
  kind : l.con.kind = .complexWriter
  lock : l.con.has doingAckBit = false
  steady : l.con.window.Steady
  len : l.con.window.len = a.blockLength
  cur : l.con.window.cur = n * packetMaxDataLength
  left : l.con.window.left < a.blockLength
  dataSeqs : l.dataSeqs = (List.range n).map (· * packetMaxDataLength)
  inside : ∀ p < n, p * packetMaxDataLength < a.blockLength

section sent
variable {a : SendArgs} {l l' : Life} {n : Nat}

theorem Sent.ran (h : Sent a l n) {x : ConM Unit} {w : SendWindow}
    (hx : wp x (fun _ c' es => Quiet l.con c' es) l.con)
    (hw : wp x (fun _ c' _ => MovesTo l.con w c') l.con)
    (hsilent : wp x (fun _ c' es => Silent l.con c' es) l.con) (hsteady : w.Steady)
    (hcur : w.cur = l.con.window.cur) (hlen : w.len = l.con.window.len)
    (hleft : w.left < a.blockLength) :
    Sent a (l.ran x) n := by
  have hwin : (l.ran x).con.window = w := by rw [Life.con_ran]; exact hw.1
  refine ⟨h.sending.ran hx, ?_, ?_, ?_, ?_, ?_, ?_, ?_, h.inside⟩
  · rw [Life.con_ran]; exact hx.source.kind.trans h.kind
  · rw [Life.con_ran]; exact hw.2.trans h.lock
  · rw [hwin]; exact hsteady
  · rw [hwin, hlen, h.len]
  · rw [hwin, hcur, h.cur]
  · rw [hwin]; exact hleft
  · rw [Life.dataSeqs_ran, show (exec x l.con).2.filterMap Effect.dataSeq = [] from hsilent,
      List.append_nil, h.dataSeqs]

theorem Sent.sends (h : Sent a l n) {x : ConM Unit} (hx : wp x (fun _ c' es => Quiet l.con c' es) l.con)
    (hs : wp x (fun _ c' es => SendsNext l.con c' es) l.con) : ∃ m, Sent a (l.ran x) m := by
  obtain ⟨k, hw, hes, hlt⟩ := hs
  have hwin : (l.ran x).con.window = l.con.window.after k := by rw [Life.con_ran]; exact hw.1
  have hpos : ∀ i, l.con.window.cur + i * packetMaxDataLength =
      (n + i) * packetMaxDataLength := fun i => by
    rw [h.cur, Nat.add_mul]
  refine ⟨n + k, h.sending.ran hx, ?_, ?_, ?_, ?_, ?_, ?_, ?_, fun p hp => ?_⟩
  · rw [Life.con_ran]; exact hx.source.kind.trans h.kind
  · rw [Life.con_ran]; exact hw.2.trans h.lock
  · rw [hwin]; exact ⟨h.steady.settled, h.steady.inSack⟩
  · rw [hwin]; exact h.len
  · rw [hwin]; exact hpos k
  · rw [hwin]; exact h.left
  · rw [Life.dataSeqs_ran, h.dataSeqs, List.range_add, List.map_append, List.map_map]
    refine congrArg _ (Eq.trans hes (List.map_congr_left fun i _ => hpos i))
  · rcases Nat.lt_or_ge p n with hlow | hhigh
    · exact h.inside p hlow
    · obtain ⟨i, rfl⟩ := Nat.exists_eq_add_of_le hhigh
      rw [← hpos, ← h.len]
      exact hlt i (by omega)

theorem Sent.step (h : Sent a l n) (hmax : a.blockLength ≤ maxCursor) {act : Life.Act}
    (hc : InOrder l act) (hs : l.step act = some l') (hl : l'.slot = .live) : ∃ m, Sent a l' m := by
  have hmaxw : l.con.window.len ≤ maxCursor := by rw [h.len]; exact hmax
  obtain ⟨inc, now, d, len, rfl, hfin, -, rfl, hx⟩ | ⟨j, t, rc, rfl, ht, hsev, rfl, hx⟩ |
      ⟨clock, rfl, -, rfl, hx⟩ :=
    h.sending.step_cases hs hl
  · have hlen : 0 < l.con.transmitBufLength ∧ l.con.transmitBufLength < 2 ^ 32 :=
      ⟨Nat.lt_of_le_of_lt (Nat.zero_le _) (h.len ▸ h.left), Nat.lt_of_le_of_lt hmaxw (by decide)⟩
    have hw := window_connectionDoNetworkData h.kind h.lock hlen inc now len hfin
    have hsilent : wp (connectionDoNetworkData inc now d len)
        (fun _ c' es => Silent l.con c' es) l.con :=
      Moves.silent_data (Moves.connectionDoNetworkData h.sending.writer inc now d len)
    by_cases hle : l.con.leftWindowCursor ≤ d.dtNote
    · simp only [if_pos hle] at hw
      obtain ⟨h1, h2, h3, h4⟩ := @SendWindow.Steady.ack _ h.steady inc _ hc
      refine ⟨n, h.ran hx ⟨hw.2.2, hw.1.trans h.lock.symm⟩ hsilent h1 h2 h3 ?_⟩
      rw [h4, ← h.len]
      exact hw.2.1
    · simp only [if_neg hle] at hw
      exact ⟨n, h.ran hx ⟨hw.2, hw.1.trans h.lock.symm⟩ hsilent h.steady rfl rfl h.left⟩
  · have htimer : t ≠ .connectionSuspendTimer := h.sending.timers _ (List.mem_of_getElem? ht)
    have hw := window_doTimeOut h.kind h.lock htimer hsev
    have hsilent : wp (doTimeOut t rc) (fun _ c' es => Silent l.con c' es) l.con :=
      Moves.silent_data (@Moves.doTimeOut 0 _ h.sending.writer _ htimer rc)
    have hkeep : ¬ (t = .senderKeepingTimer ∧ l.con.runningCount = rc) := by
      rintro ⟨rfl, rfl⟩
      exact hc _ ht rfl
    simp only [if_neg hkeep] at hw
    have he : Sent a { l with timers := l.timers.eraseIdx j } n :=
      ⟨h.sending.eraseTimer j, h.kind, h.lock, h.steady, h.len, h.cur, h.left, h.dataSeqs, h.inside⟩
    exact ⟨n, he.ran hx hw hsilent h.steady rfl rfl h.left⟩
  · have he : Sent a { l with queued := l.queued - 1 } n :=
      ⟨h.sending.dequeue _, h.kind, h.lock, h.steady, h.len, h.cur, h.left, h.dataSeqs, h.inside⟩
    have hd : packetMaxDataLength ∣ l.con.window.cur := by rw [h.cur]; exact Dvd.intro_left n rfl
    exact he.sends hx
      (sendsNext_connectionDoSender h.kind h.sending.stop h.steady.settled hd hmaxw clock)

end sent

theorem sent_init {a : SendArgs} (ha : a.WF) (hlen : smallFileMaxSize < a.blockLength) (id0 id1 : Nat) :
    Sent a (Life.startSender a id0 id1) 0 := by
  have hinv := OpenWindow.inv_init ha hlen id0 id1
  have hquiet : wp ConM.addToSenderQueue (fun _ c' es => SameWindow (newWriter a id0 id1) c' es ∧
      Silent (newWriter a id0 id1) c' es) (newWriter a id0 id1) :=
    ⟨sameWindow.addToSenderQueue _, silent.addToSenderQueue _⟩
  have hwin : (Life.startSender a id0 id1).con.window = (newWriter a id0 id1).window := by
    rw [Life.startSender, Life.con_ran]; exact hquiet.1.1
  have hnew : (newWriter a id0 id1).window.Steady ∧ (newWriter a id0 id1).window.len = a.blockLength ∧
      (newWriter a id0 id1).window.cur = 0 ∧ (newWriter a id0 id1).window.left = 0 := by
    simp only [newWriter, if_neg (Nat.not_le.2 hlen)]
    exact ⟨⟨⟨by simp [window, construct], by simp [window, construct], by simp [window, construct]⟩,
      by simp [window, construct]⟩, rfl, rfl, rfl⟩
  rw [← hwin] at hnew
  obtain ⟨hsteady, hlen', hcur, hleft⟩ := hnew
  refine ⟨hinv.sending, hinv.kind, hinv.lock, hsteady, hlen', ?_, ?_, ?_,
    fun p hp => absurd hp (Nat.not_lt_zero p)⟩
  · rw [hcur, Nat.zero_mul]
  · rw [hleft]; exact Nat.lt_of_le_of_lt (Nat.zero_le _) hlen
  · rw [Life.startSender, Life.dataSeqs_ran,
      show (exec ConM.addToSenderQueue _).2.filterMap _ = [] from hquiet.2]
    rfl

theorem sent_of_reach {a : SendArgs} (ha : a.WF) (hlen : smallFileMaxSize < a.blockLength)
    (hmax : a.blockLength ≤ maxCursor) {id0 id1 : Nat} {l : Life}
    (h : (machine a id0 id1).ReachUnder InOrder l) (hl : l.slot = .live) : ∃ n, Sent a l n := by
  refine h.invariant (I := fun l => l.slot = .live → ∃ n, Sent a l n) ?_ ?_ hl
  · rintro s rfl _
    exact ⟨0, sent_init ha hlen id0 id1⟩
  · intro s act s' ih hc hs hl
    obtain ⟨n, hn⟩ := ih (Life.live_of_step hs hl)
    exact hn.step hmax hc hs hl

end TransferRange

/-! ### The reader -/

/-- A complex reader and the packets its collector has taken. -/
structure Arrivals where
  reader : Connection
  arrived : Finset Nat

/-- A packet of the block, or the ack timer. -/
inductive Arrival
  | packet (pos sendTime : Nat) (data : List UInt8)
  | ackTimer

namespace Arrivals
open AckInfoCollector ComplexConnection

def step (s : Arrivals) : Arrival → Option Arrivals
  | .packet pos sendTime data =>
    if pos < packetCount s.reader.transmitBufLength then
      some ⟨(exec (readerConnectionDoNetworkData
        (pos * packetMaxDataLength) sendTime data data.length) s.reader).1,
          if (s.reader.ackInfoCollector.set (pos * packetMaxDataLength) sendTime).1.isSome then
            insert pos s.arrived
        else s.arrived⟩
    else none
  | .ackTimer => some ⟨(exec readerAck s.reader).1, s.arrived⟩

/-- A reader of a block of length `len`. -/
def machine (len : Nat) : Machine Arrivals Arrival where
  init s := s.arrived = ∅ ∧ s.reader.transmitBufLength = len ∧ s.reader.ackInfoCollector = .zero ∧
    s.reader.has forceStopBit = false ∧ s.reader.has transSucBit = false
  step := step

/-- The sequence number of the next ack. -/
def ackSeq (s : Arrivals) : Nat := s.reader.ackInfoCollector.getNextAck.1.2.1

/-- All packets of the block are there. -/
def Complete (s : Arrivals) : Prop := ∀ p < packetCount s.reader.transmitBufLength, p ∈ s.arrived

structure Inv (len : Nat) (s : Arrivals) : Prop where
  length : s.reader.transmitBufLength = len
  stop : s.reader.has forceStopBit = false
  suc : s.reader.has transSucBit = false
  ok : s.reader.ackInfoCollector.Ok (· ∈ s.arrived)
  inside : ∀ p ∈ s.arrived, p < packetCount len

/-- What a handler of a reader that takes data keeps. -/
def Reads (c c' : Connection) : Prop :=
  c'.transmitBufLength = c.transmitBufLength ∧ c'.has forceStopBit = c.has forceStopBit ∧
    c'.has transSucBit = c.has transSucBit

theorem Reads.trans {c c' c'' : Connection} (h : Reads c c') (h' : Reads c' c'') : Reads c c'' :=
  ⟨h'.1.trans h.1, h'.2.1.trans h.2.1, h'.2.2.trans h.2.2⟩

section handlers
variable {c : Connection}

theorem wp_readerConnectionDoNetworkData (hstop : c.has forceStopBit = false)
    (hsuc : c.has transSucBit = false) (seq sendTime : Nat) (data : List UInt8) (len : Int) :
    wp (readerConnectionDoNetworkData seq sendTime data len) (fun _ c' _ => Reads c c' ∧
      c'.ackInfoCollector = (c.ackInfoCollector.set seq sendTime).2) c := by
  rw [readerConnectionDoNetworkData, wp_bind, wp_bitTest (by decide), wp_bind,
    wp_bitTest (by decide), wp_ite, if_neg (by simp [hstop, hsuc]), wp_bind,
    wp_increaseRunningCount, wp_bind, collectorSet, wp_modifyGet, wp_when]
  split <;> exact ⟨⟨rfl, rfl, rfl⟩, rfl⟩

theorem wp_readerAck (hstop : c.has forceStopBit = false) (hsuc : c.has transSucBit = false) :
    wp readerAck (fun _ c' _ => Reads c c' ∧ c'.ackInfoCollector = c.ackInfoCollector.getNextAck.2 ∧
      (c.ackInfoCollector.getNextAck.1.2.1 > sub32 c.transmitBufLength 1 →
        c'.transResultCode = .successfully)) c := by
  rw [readerAck, wp_bind, wp_bitTest (by decide), wp_bind, wp_bitTest (by decide), wp_when,
    if_pos (by simp [hstop, hsuc]), wp_bind, nextAck, wp_modifyGet, wp_bind]
  obtain ⟨c₁, hc₁⟩ : ∃ c₁, { c with ackInfoCollector := c.ackInfoCollector.getNextAck.2 } =
      c₁ := ⟨_, rfl⟩
  have h1 : Reads c c₁ ∧ c₁.ackInfoCollector = c.ackInfoCollector.getNextAck.2 := by
    rw [← hc₁]
    exact ⟨⟨rfl, rfl, rfl⟩, rfl⟩
  rw [hc₁]
  have hbit : Keeps (fun c c' _ => Reads c c' ∧ c'.ackInfoCollector = c.ackInfoCollector)
      (if c.ackInfoCollector.getNextAck.1.1 = .sack then testAndSet readerSackBit
        else testAndReset readerSackBit) :=
    keeps_ite (keeps_modifyGet fun c => by simp [Reads]) (keeps_modifyGet fun c => by simp [Reads])
  refine wp_mono _ (hbit c₁) fun _ c₂ _ h2 => ?_
  have hr : Reads c c₂ := h1.1.trans h2.1
  have hcol : c₂.ackInfoCollector = c.ackInfoCollector.getNextAck.2 := h2.2.trans h1.2
  rw [wp_bind, wp_sendDatagram, wp_bind, wp_get, wp_ite, hr.1]
  split
  · rw [wp_bind, wp_setTransResultCode, wp_bind, wp_testAndSet (by decide), wp_when]
    have hlast : Reads c { c₂ with
      transResultCode := .successfully, status := (c₂.status.testAndSet setRecvSuccTimerBit).2 } :=
      hr.trans (by simp [Reads])
    split <;> exact ⟨hlast, hcol, fun _ => rfl⟩
  · rename_i hlow
    exact ⟨hr, hcol, fun hgt => absurd hgt hlow⟩

end handlers

theorem Inv.step {len : Nat} {s s' : Arrivals} (h : Inv len s) {act : Arrival}
    (hs : s.step act = some s') : Inv len s' := by
  cases act with
  | packet pos sendTime data =>
    simp only [Arrivals.step, Option.ite_none_right_eq_some, Option.some.injEq, h.length] at hs
    obtain ⟨hpos, rfl⟩ := hs
    obtain ⟨⟨hlen, hstop, hsuc⟩, hcol⟩ :=
      wp_readerConnectionDoNetworkData h.stop h.suc
        (pos * packetMaxDataLength) sendTime data data.length
    refine ⟨hlen.trans h.length, hstop.trans h.stop, hsuc.trans h.suc, ?_, fun p hp => ?_⟩
    · show AckInfoCollector.Ok (exec _ s.reader).1.ackInfoCollector _
      rw [show (exec _ s.reader).1.ackInfoCollector = _ from hcol]
      exact ok_set h.ok pos sendTime
    · replace hp : p ∈ if (s.reader.ackInfoCollector.set
        (pos * packetMaxDataLength) sendTime).1.isSome then
        insert pos s.arrived else s.arrived := hp
      split at hp
      · rcases Finset.mem_insert.1 hp with rfl | hp
        exacts [hpos, h.inside p hp]
      · exact h.inside p hp
  | ackTimer =>
    simp only [Arrivals.step, Option.some.injEq] at hs
    subst hs
    obtain ⟨⟨hlen, hstop, hsuc⟩, hcol, -⟩ := wp_readerAck h.stop h.suc
    refine ⟨hlen.trans h.length, hstop.trans h.stop, hsuc.trans h.suc, ?_, h.inside⟩
    show AckInfoCollector.Ok (exec readerAck s.reader).1.ackInfoCollector _
    rw [show (exec readerAck s.reader).1.ackInfoCollector = _ from hcol]
    exact (getNextAck_spec h.ok).1

theorem inv_of_reach {len : Nat} {s : Arrivals} (h : (machine len).Reach s) : Inv len s := by
  refine h.invariant ?_ fun s act s' hI _ hs => hI.step hs
  rintro s ⟨h1, h2, h3, h4, h5⟩
  refine ⟨h2, h4, h5, ?_, by simp [h1]⟩
  rw [h3, h1]
  simpa using ok_zero

/-- Once all packets are there, the ack is the end of the last one, in 32 bits. -/
theorem Inv.ackSeq_eq {len : Nat} {s : Arrivals} (h : Inv len s) (hall : s.Complete) :
    s.ackSeq = u32 (packetCount len * packetMaxDataLength) := by
  have hfirst : firstMissing s.arrived = packetCount len :=
    firstMissing_eq (fun hmem => Nat.lt_irrefl _ (h.inside _ hmem)) fun p hp =>
      hall p (by rwa [h.length])
  have hlast : s.reader.ackInfoCollector.getNextAck.2.lastAckPos = firstMissing s.arrived :=
    lastAckPos_compact (c := { s.reader.ackInfoCollector with ackTime := 0 }) h.ok
  rw [ackSeq, (getNextAck_spec h.ok).2.2, hlast, hfirst]

/-- One packet after the other, each acknowledged: the reader gets them all. -/
theorem exists_reach {len : Nat} (n : Nat) (hn : n ≤ packetCount len) : ∃ s, (machine len).Reach s ∧
    s.arrived = Finset.range n ∧ s.reader.ackInfoCollector.lastAckPos = n := by
  induction n with
  | zero =>
    refine ⟨⟨{ construct .complexReader with transmitBufLength := len }, ∅⟩,
      .init ⟨rfl, rfl, rfl, ?_, ?_⟩, rfl, rfl⟩ <;> simp [construct]
  | succ n ih =>
    obtain ⟨s, hs, harr, hlast⟩ := ih (Nat.le_of_succ_le hn)
    have hI := inv_of_reach hs
    have hfirst : firstMissing s.arrived = n := by
      rw [harr]
      exact firstMissing_eq (by simp) fun p hp => Finset.mem_range.2 hp
    have haccept : (s.reader.ackInfoCollector.set (n * packetMaxDataLength) 0).1.isSome := by
      rw [Option.isSome_iff_ne_none]
      intro hnone
      have := (set_cases hI.ok (n * packetMaxDataLength) 0).1.1 hnone
      rw [Nat.mul_div_cancel _ (by decide), hlast, hfirst] at this
      simp only [maxBitNum] at this
      omega
    obtain ⟨s₁, hs₁⟩ : ∃ s₁, s.step (.packet n 0 []) = some s₁ := by
      rw [Arrivals.step, hI.length, if_pos (Nat.lt_of_succ_le hn)]
      exact ⟨_, rfl⟩
    have hr₁ : (machine len).Reach s₁ := .step (a := .packet n 0 []) hs trivial hs₁
    have harr₁ : s₁.arrived = Finset.range (n + 1) := by
      rw [Arrivals.step, hI.length, if_pos (Nat.lt_of_succ_le hn), if_pos haccept,
        Option.some.injEq] at hs₁
      rw [← hs₁, Finset.range_add_one, harr]
    have hI₁ := inv_of_reach hr₁
    refine ⟨_, .step hr₁ (a := .ackTimer) trivial rfl, harr₁, ?_⟩
    obtain ⟨-, hcol, -⟩ := wp_readerAck hI₁.stop hI₁.suc
    have hlast₁ : s₁.reader.ackInfoCollector.getNextAck.2.lastAckPos = firstMissing s₁.arrived :=
      lastAckPos_compact (c := { s₁.reader.ackInfoCollector with ackTime := 0 }) hI₁.ok
    show (exec readerAck s₁.reader).1.ackInfoCollector.lastAckPos = _
    rw [show (exec readerAck s₁.reader).1.ackInfoCollector = _ from hcol, hlast₁, harr₁]
    exact firstMissing_eq (by simp) fun p hp => Finset.mem_range.2 hp

end Arrivals

/-! ### Both sides -/

namespace TransferRange
variable {a : SendArgs} {id0 id1 : Nat}

/-- Sent in order, the packets of the block go out at the multiples of 1452, the cursor stands at
the next one, and the loop goes on until all of them are out. -/
def CountsPackets (a : SendArgs) (id0 id1 : Nat) : Prop :=
  ∀ l, (machine a id0 id1).ReachUnder InOrder l → l.slot = .live → ∃ n ≤ packetCount a.blockLength,
    l.dataSeqs = (List.range n).map (· * packetMaxDataLength) ∧
    l.con.currentWindowCursor = n * packetMaxDataLength ∧
    (l.con.currentWindowCursor < l.con.transmitBufLength ↔ n < packetCount a.blockLength)

/-- The ack of a reader that has all packets is past the last byte of the block, and both sides take
it for the end. -/
def Completes (a : SendArgs) (id0 id1 : Nat) : Prop :=
  ∀ s, (Arrivals.machine a.blockLength).Reach s → s.Complete →
    s.ackSeq > sub32 a.blockLength 1 ∧
    (exec ComplexConnection.readerAck s.reader).1.transResultCode = .successfully ∧
    ∀ l, (machine a id0 id1).ReachUnder InOrder l → l.slot = .live → l.con.finalAck s.ackSeq

theorem countsPackets (ha : a.WF) (hlen : smallFileMaxSize < a.blockLength)
    (hmax : a.blockLength ≤ maxCursor) :
    CountsPackets a id0 id1 := by
  intro l hl hlive
  obtain ⟨n, hn⟩ := sent_of_reach ha hlen hmax hl hlive
  have hcur : l.con.currentWindowCursor = n * packetMaxDataLength := hn.cur
  have hlength : l.con.transmitBufLength = a.blockLength := hn.len
  refine ⟨n, ?_, hn.dataSeqs, hcur, ?_⟩
  · rcases Nat.eq_zero_or_pos n with rfl | hpos
    · exact Nat.zero_le _
    · exact Nat.le_of_pred_lt (lt_packetCount_iff.2 (hn.inside (n - 1) (Nat.sub_one_lt_of_lt hpos)))
  · rw [hcur, hlength, lt_packetCount_iff]

theorem completes (ha : a.WF) (hlen : smallFileMaxSize < a.blockLength)
    (hmax : a.blockLength ≤ maxCursor) :
    Completes a id0 id1 := by
  intro s hs hall
  have hI := Arrivals.inv_of_reach hs
  have hfits : packetCount a.blockLength * packetMaxDataLength < 2 ^ 32 :=
    Nat.lt_of_le_of_lt (packetCount_mul_le hmax) (by decide)
  have hack : a.blockLength ≤ s.ackSeq := by
    rw [hI.ackSeq_eq hall, u32_of_lt hfits]
    exact packetCount_le
  have hlast : sub32 a.blockLength 1 = a.blockLength - 1 :=
    sub32_of_le ha.length (Nat.lt_of_le_of_lt (Nat.zero_le _) hlen)
  have hgt : s.ackSeq > sub32 a.blockLength 1 := by
    rw [hlast]
    exact Nat.lt_of_lt_of_le (Nat.sub_one_lt_of_lt hlen) hack
  refine ⟨hgt, (Arrivals.wp_readerAck hI.stop hI.suc).2.2 ?_, fun l hl hlive => ?_⟩
  · rw [hI.length]
    exact hgt
  · obtain ⟨n, hn⟩ := sent_of_reach ha hlen hmax hl hlive
    have hlength : l.con.transmitBufLength = a.blockLength := hn.len
    exact ⟨Nat.le_trans (Nat.le_of_lt hn.left) hack, by rwa [hlength]⟩

/-- Past the last boundary the complete reader acknowledges 788. -/
theorem not_completes (ha : a.WF) (hmax : maxCursor < a.blockLength) : ¬ Completes a id0 id1 := by
  intro h
  obtain ⟨s, hs, harr, -⟩ := Arrivals.exists_reach (packetCount a.blockLength) (Nat.le_refl _)
  have hI := Arrivals.inv_of_reach hs
  have hall : s.Complete := fun p hp => by
    rw [hI.length] at hp
    rwa [harr, Finset.mem_range]
  have hack := (h s hs hall).1
  rw [hI.ackSeq_eq hall, packetCount_of_gt hmax ha.length,
    sub32_of_le ha.length (Nat.lt_of_le_of_lt (Nat.zero_le _) hmax)] at hack
  have h788 : u32 (2957967 * packetMaxDataLength) = 788 := by norm_num [u32, packetMaxDataLength]
  simp only [h788, maxCursor, packetMaxDataLength] at hack hmax
  omega

/-- The arithmetic of a complex transfer is exact just for the blocks that end before the last
packet boundary. -/
theorem exact_iff_le_maxCursor (ha : a.WF) (hlen : smallFileMaxSize < a.blockLength) :
    CountsPackets a id0 id1 ∧ Completes a id0 id1 ↔ a.blockLength ≤ maxCursor := by
  refine ⟨fun h => ?_, fun hmax => ⟨countsPackets ha hlen hmax, completes ha hlen hmax⟩⟩
  by_contra hmax
  exact not_completes ha (Nat.lt_of_not_le hmax) h.2

theorem exact_iff_le_maxCursor_shortest :
    CountsPackets shortestComplex 1 0 ∧ Completes shortestComplex 1 0 :=
  (exact_iff_le_maxCursor shortestComplex_wf (by decide)).2 (by decide)

/-- The shortest block that ends behind the last boundary. -/
def pastTheLast : SendArgs :=
  ⟨[], some (List.replicate 4294966633 0), 4294966633, 0, .noDeleteAfterSend, none,
    defaultSsthreshSize, 2 ^ 20⟩

theorem pastTheLast_wf : pastTheLast.WF where
  length := by decide
  source := .inl ⟨rfl, _, rfl, List.length_replicate⟩
  ssthresh := by decide
  maxWindow := by decide

theorem exists_wrapped_ack :
    ¬ ∀ (a : SendArgs) (id0 id1 : Nat), a.WF → smallFileMaxSize < a.blockLength →
      CountsPackets a id0 id1 ∧ Completes a id0 id1 := fun h =>
  not_completes pastTheLast_wf (by decide) (h pastTheLast 1 0 pastTheLast_wf (by decide)).2

end TransferRange

end Resend.Udp
