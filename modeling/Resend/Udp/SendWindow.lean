import Resend.Udp.WriterSteps

/-!
# The window of a complex writer

The cursors, the congestion state and the four message bits of a complex writer, and what an ack, a
timeout and a sender run make of them. The handlers of `ComplexConnection` do exactly this to their
connection (`window_*` below); everything else they do leaves the window alone.
-/

namespace Resend.Udp
open Handler Connection ConM

structure SendWindow where
  left : Nat
  len : Nat
  cur : Nat
  old : Nat
  right : Nat
  site : Nat
  ssthresh : Nat
  maxSite : Nat
  sackSeq : Nat
  same : Nat
  timeOut : Bool
  sack : Bool
  inSack : Bool
  newAck : Bool

namespace SendWindow

def congestion (w : SendWindow) : SendWindow :=
  { w with
    ssthresh := if w.ssthresh / 2 < packetMaxDataLength then packetMaxDataLength else w.ssthresh / 2
    site := packetMaxDataLength, old := w.cur, right := w.cur }

/-- The keeping timer expired, not for the seventh time. -/
def expire (w : SendWindow) : SendWindow := { w.congestion with timeOut := true }

/-- The next size of the window, by doubling or by `inc`. -/
def grow (inc : Nat) (w : SendWindow) : SendWindow :=
  if w.site ≥ w.ssthresh then
    let next := if u64 (w.site + inc) > w.maxSite then w.maxSite else u64 (w.site + inc)
    let next := if next < w.site then w.site else next
    { w with ssthresh := next, site := next }
  else { w with site := u64 (2 * w.site) }

/-- Does this ack count as a third equal one? -/
def third (seq : Nat) (w : SendWindow) : Prop := w.sackSeq = seq ∧ u32 (w.same + 1) ≥ 3

instance (seq : Nat) (w : SendWindow) : Decidable (w.third seq) := inferInstanceAs (Decidable (_ ∧ _))

/-- Does this ack end the recovery? -/
def recovers (seq : Nat) (w : SendWindow) : Bool := w.sackSeq ≠ seq && w.cur ≤ seq && w.inSack

def open_ (w : SendWindow) : SendWindow :=
  if w.inSack then w else { w with right := u64 (w.left + w.site) }

/-- The state in which the window is adjusted: the ack is counted. -/
def count (seq : Nat) (w : SendWindow) : SendWindow :=
  if w.sackSeq ≠ seq then
    { w with left := seq, sackSeq := seq, same := 1, inSack := w.inSack && !decide (w.cur ≤ seq) }
  else { w with left := seq, same := u32 (w.same + 1) }

/-- An accepted ack that is not the final one. -/
def ack (inc seq : Nat) (w : SendWindow) : SendWindow :=
  if w.third seq then { (w.count seq).congestion with sack := true }
  else if w.recovers seq then open_ { w.count seq with site := w.ssthresh, newAck := true }
  else open_ (grow inc (w.count seq))

/-- `process_sender_msg_bit`. -/
def process (w : SendWindow) : SendWindow :=
  { w with
    cur := if w.newAck then w.old else if w.timeOut || w.sack then u32 w.left else w.cur
    inSack := w.inSack || w.sack
    timeOut := false, sack := false, newAck := false }

def canSend (w : SendWindow) : Prop := w.cur < w.right ∧ w.cur < w.len

instance (w : SendWindow) : Decidable w.canSend := inferInstanceAs (Decidable (_ ∧ _))

def advance (w : SendWindow) : SendWindow := { w with cur := u32 (w.cur + packetMaxDataLength) }

/-- The loop of a sender run with `n` packets to go. -/
def loop : Nat → SendWindow → SendWindow
  | 0, w => if w.canSend then w.process else w
  | n + 1, w => if w.canSend then loop n w.process.advance else w

def send (w : SendWindow) : SendWindow := loop 16 w.process

/-- No message is waiting for the sender. -/
def Settled (w : SendWindow) : Prop := w.timeOut = false ∧ w.sack = false ∧ w.newAck = false

theorem settled_process (w : SendWindow) : Settled w.process := ⟨rfl, rfl, rfl⟩

theorem process_eq {w : SendWindow} (h : Settled w) : w.process = w := by
  obtain ⟨h1, h2, h3⟩ := h
  cases w
  simp_all [process]

end SendWindow

namespace Connection

/-- The window of a connection. -/
def window (c : Connection) : SendWindow where
  left := c.leftWindowCursor
  len := c.transmitBufLength
  cur := c.currentWindowCursor
  old := c.oldCurrentWindowCursor
  right := c.rightWindowCursor
  site := c.windowSite
  ssthresh := c.windowSsthresh
  maxSite := c.defaultWindowSize
  sackSeq := c.sackSeq
  same := c.sackSameCount
  timeOut := c.has hasTimeOutBit
  sack := c.has hasSackBit
  inSack := c.has stillDoingSackBit
  newAck := c.has sackHasNewAckBit

end Connection

/-! ### What leaves the window alone -/

/-- The window is the same, and so is the lock of the ack handler. -/
def SameWindow (c c' : Connection) (_ : List Effect) : Prop :=
  c'.window = c.window ∧ c'.has doingAckBit = c.has doingAckBit

theorem sameWindow : ConFrame SameWindow where
  refl _ := ⟨rfl, rfl⟩
  trans h h' := ⟨h'.1.trans h.1, h'.2.trans h.2⟩
  times h := by
    obtain ⟨_, _, _, _, _, _, rfl⟩ := h
    exact ⟨rfl, rfl⟩
  set {k} _ hk := by
    have h64 : k < 64 := by omega
    have h8 : 8 ≠ k ∧ 9 ≠ k ∧ 10 ≠ k ∧ 11 ≠ k ∧ 12 ≠ k := by omega
    exact keeps_modifyGet fun c => by simp [SameWindow, window, h64, h8]
  reset {k} _ hk := by
    have h64 : k < 64 := by omega
    have h8 : 8 ≠ k ∧ 9 ≠ k ∧ 10 ≠ k ∧ 11 ≠ k ∧ 12 ≠ k := by omega
    exact keeps_modifyGet fun c => by simp [SameWindow, window, h64, h8]
  bookkeeping _ := ⟨rfl, rfl⟩

theorem SameWindow.buildAndSend (now : Nat) : Keeps SameWindow (ComplexConnection.buildAndSend now) :=
  sameWindow.bind sameWindow.get fun _ =>
  sameWindow.bind (keeps_ite (sameWindow.bind (sameWindow.set (by decide) (by decide)) fun _ =>
    sameWindow.pure _) (sameWindow.pure _)) fun _ =>
  sameWindow.bind (sameWindow.bind sameWindow.get fun _ => keeps_emit fun _ => ⟨rfl, rfl⟩) fun _ =>
    sameWindow.increaseRunningCount

/-! ### What the handlers do to the window -/

section refine
variable {c : Connection}

/-- The window becomes `w`, the lock of the ack handler stays. -/
def MovesTo (c : Connection) (w : SendWindow) (c' : Connection) : Prop :=
  c'.window = w ∧ c'.has doingAckBit = c.has doingAckBit

theorem MovesTo.same {c c' c'' : Connection} {w : SendWindow} {es : List Effect} (h : MovesTo c w c')
    (h' : SameWindow c' c'' es) : MovesTo c w c'' :=
  ⟨h'.1.trans h.1, h'.2.trans h.2⟩

theorem window_process : wp ComplexConnection.processSenderMsgBit
    (fun _ c' _ => MovesTo c c.window.process c') c := by
  simp only [ComplexConnection.processSenderMsgBit, wp_bind, wp_when, wp_modify, wp_pure,
    wp_testAndReset (k := hasTimeOutBit) (by decide), wp_testAndReset (k := hasSackBit) (by decide),
    wp_testAndReset (k := sackHasNewAckBit) (by decide),
    wp_testAndSet (k := stillDoingSackBit) (by decide)]
  cases hT : c.has hasTimeOutBit <;> cases hK : c.has hasSackBit <;>
    cases hN : c.has sackHasNewAckBit <;> simp_all [MovesTo, window, SendWindow.process]

theorem window_loop (clock : Nat → Nat) (n : Nat) : wp (ComplexConnection.sendLoop clock n)
    (fun _ c' _ => MovesTo c (c.window.loop n) c') c := by
  induction n generalizing c with
  | zero =>
    rw [ComplexConnection.sendLoop, wp_bind, wp_get, wp_ite, SendWindow.loop]
    by_cases h : ComplexConnection.canSend c
    · rw [if_pos h, wp_bind, if_pos (show c.window.canSend from h)]
      exact wp_mono _ window_process fun _ c₁ _ h1 =>
        wp_mono _ (sameWindow.rebackSender c₁) fun _ _ _ h2 => h1.same h2
    · rw [if_neg h, if_neg (show ¬ c.window.canSend from h)]
      exact sameWindow.armKeepingTimer c
  | succ n ih =>
    rw [ComplexConnection.sendLoop, wp_bind, wp_get, wp_ite, SendWindow.loop]
    by_cases h : ComplexConnection.canSend c
    · rw [if_pos h, wp_bind, if_pos (show c.window.canSend from h)]
      refine wp_mono _ window_process fun _ c₁ _ h1 => ?_
      rw [wp_bind]
      refine wp_mono _ (SameWindow.buildAndSend _ c₁) fun _ c₂ _ h2 => ?_
      rw [wp_bind, ComplexConnection.advanceCursor, wp_modify]
      refine wp_mono _ ih fun _ c₃ _ h3 => ⟨h3.1.trans ?_, h3.2.trans (h1.same h2).2⟩
      rw [← (h1.same h2).1]
      rfl
    · rw [if_neg h, if_neg (show ¬ c.window.canSend from h)]
      exact sameWindow.armKeepingTimer c

theorem window_doSend (hstop : c.has forceStopBit = false) (clock : Nat → Nat) :
    wp (ComplexConnection.writerConnectionDoSend clock) (fun _ c' _ =>
      MovesTo c c.window.send c') c := by
  rw [ComplexConnection.writerConnectionDoSend, wp_bind, wp_bitTest (by decide), wp_ite,
    if_neg (by simp [hstop]), wp_bind]
  refine wp_mono _ window_process fun _ c₁ _ h1 => wp_mono _ (window_loop clock 16) fun _ c₂ _ h2 => ?_
  rw [h1.1] at h2
  exact ⟨h2.1, h2.2.trans h1.2⟩

theorem window_lock :
    wp (ConM.testAndSet doingAckBit) (fun old c' _ => old = (if c.has doingAckBit then 1 else 0) ∧
      c'.window = c.window ∧ c'.has doingAckBit = true) c := by
  rw [wp_testAndSet (by decide)]
  refine ⟨rfl, ?_, by simp⟩
  simp [window]

theorem window_unlock : wp (ConM.testAndReset doingAckBit) (fun _ c' _ => c'.window = c.window ∧
    c'.has doingAckBit = false) c := by
  rw [wp_testAndReset (by decide)]
  refine ⟨?_, by simp⟩
  simp [window]

theorem window_setTimeOut : wp (ConM.testAndSet hasTimeOutBit)
    (fun _ c' _ => MovesTo c { c.window with timeOut := true } c') c := by
  rw [wp_testAndSet (by decide)]
  simp [MovesTo, window]

theorem window_setSack : wp (ConM.testAndSet hasSackBit)
    (fun _ c' _ => MovesTo c { c.window with sack := true } c') c := by
  rw [wp_testAndSet (by decide)]
  simp [MovesTo, window]

theorem window_setNewAck : wp (ConM.testAndSet sackHasNewAckBit)
    (fun _ c' _ => MovesTo c { c.window with newAck := true } c') c := by
  rw [wp_testAndSet (by decide)]
  simp [MovesTo, window]

theorem window_congestion (c : Connection) :
    (ComplexConnection.writerCongestion c).window = c.window.congestion :=
  rfl

theorem window_grow (inc : Nat) (c : Connection) :
    (ComplexConnection.nextWindow inc c).window = c.window.grow inc := by
  unfold ComplexConnection.nextWindow SendWindow.grow
  by_cases h : c.windowSite ≥ c.windowSsthresh
  · rw [if_pos h, if_pos (show c.window.site ≥ c.window.ssthresh from h)]
    rfl
  · rw [if_neg h, if_neg (show ¬ c.window.site ≥ c.window.ssthresh from h)]
    rfl

theorem lock_grow (inc : Nat) (c : Connection) :
    (ComplexConnection.nextWindow inc c).status = c.status := by
  unfold ComplexConnection.nextWindow; split <;> rfl

theorem window_timeOut (hlock : c.has doingAckBit = false) {runningCount : Nat}
    (hrc : c.runningCount = runningCount) (htry : ¬ c.tryTime + 1 = sendTryTime) :
    wp (ComplexConnection.writerConnectionDoTimeOut .senderKeepingTimer runningCount)
      (fun _ c' _ => MovesTo c c.window.expire c') c := by
  rw [ComplexConnection.writerConnectionDoTimeOut, wp_bind, wp_get, wp_when,
    if_pos hrc, wp_bind, wp_modify, wp_bind, wp_get, wp_ite, if_neg htry, wp_bind]
  refine wp_mono _ (sameWindow.setConnectionRTODouble _) fun _ c₁ _ h1 => ?_
  have h1 : MovesTo c c.window c₁ := h1
  rw [wp_bind]
  refine wp_mono _ window_lock fun old c₂ _ ⟨hold, h2, _⟩ => ?_
  rw [h1.2, hlock] at hold
  rw [wp_bind, wp_when, if_pos (by rw [hold]; rfl), wp_bind, wp_modify, wp_bind]
  refine wp_mono _ window_unlock fun _ c₃ _ ⟨h3, h3'⟩ => ?_
  rw [wp_pure, wp_bind]
  refine wp_mono _ window_setTimeOut fun _ c₄ _ h4 => ?_
  refine wp_mono _ (sameWindow.addToSenderQueue c₄) fun _ c₅ _ h5 => ⟨?_, ?_⟩
  · rw [h5.1, h4.1, h3, window_congestion, h2, h1.1]
    rfl
  · rw [h5.2, h4.2, h3', hlock]

theorem window_recordSack {seq : Nat} (hleft : c.leftWindowCursor = seq) :
    wp (ComplexConnection.recordSack seq) (fun new c' _ => MovesTo c (c.window.count seq) c' ∧
      (new ≠ 0 ↔ c.window.recovers seq = true) ∧ (c'.sackSameCount ≥ 3 ↔ c.window.third seq)) c := by
  subst hleft
  rw [ComplexConnection.recordSack, wp_bind, wp_get, wp_ite]
  by_cases hs : c.sackSeq = c.leftWindowCursor
  · rw [if_neg (not_not.2 hs), wp_bind, wp_modify, wp_pure]
    refine ⟨⟨?_, rfl⟩, ?_, ?_⟩
    · simp [window, SendWindow.count, hs]
    · simp [SendWindow.recovers, window, hs]
    · simp [SendWindow.third, window, hs]
  · rw [if_pos hs, wp_bind, wp_modify, wp_ite]
    split <;> rename_i hcur
    · rw [wp_testAndReset (by decide)]
      refine ⟨⟨?_, ?_⟩, ?_, ?_⟩
      · have hcur : c.currentWindowCursor ≤ c.leftWindowCursor := hcur
        simp [window, SendWindow.count, hs, hcur]
      · simp
      · have hcur : c.currentWindowCursor ≤ c.leftWindowCursor := hcur
        simp [SendWindow.recovers, window, hs, hcur]
      · simp [SendWindow.third, window, hs]
    · rw [wp_pure]
      have hcur : ¬ c.currentWindowCursor ≤ c.leftWindowCursor := hcur
      refine ⟨⟨?_, rfl⟩, ?_, ?_⟩
      · simp [window, SendWindow.count, hs, hcur]
      · simp [SendWindow.recovers, window, hs, hcur]
      · simp [SendWindow.third, window, hs]

theorem window_open : wp (do
      let inSack ← ConM.bitTest stillDoingSackBit
      Handler.when (inSack ≠ 1)
        (Handler.modify fun c =>
          { c with rightWindowCursor := u64 (c.leftWindowCursor + c.windowSite) }) : ConM Unit)
    (fun _ c' _ => MovesTo c c.window.open_ c') c := by
  rw [wp_bind, wp_bitTest (by decide), wp_when]
  cases h : c.has stillDoingSackBit with
  | true =>
    have hw : c.window.open_ = c.window := if_pos h
    rw [if_neg (by simp), hw]
    exact ⟨rfl, rfl⟩
  | false =>
    have hw : c.window.open_ = { c.window with right := u64 (c.window.left + c.window.site) } :=
      if_neg (by simp [window, h])
    rw [if_pos (by simp), wp_modify, hw]
    exact ⟨rfl, rfl⟩

theorem window_growWindow (inc : Nat) (new : Int) :
    wp (ComplexConnection.growWindow inc new) (fun _ c' _ => MovesTo c
      (if new ≠ 0 then { c.window with site := c.window.ssthresh, newAck := true }
        else c.window.grow inc).open_
      c') c := by
  rw [ComplexConnection.growWindow, wp_bind, wp_ite]
  split
  · rw [wp_bind, wp_modify, wp_bind]
    refine wp_mono _ window_setNewAck fun _ c₁ _ h1 => ?_
    rw [wp_pure]
    refine wp_mono _ window_open fun _ c₂ _ h2 => ⟨?_, h2.2.trans h1.2⟩
    rw [h2.1, h1.1]
    rfl
  · rw [wp_modify]
    refine wp_mono _ window_open fun _ c₂ _ h2 => ⟨?_, h2.2.trans ?_⟩
    · rw [h2.1, window_grow]
    · rw [has, lock_grow]

theorem window_ack (hlock : c.has doingAckBit = false) (inc now : Nat) {seq : Nat} (sendTime : Nat)
    (hle : c.leftWindowCursor ≤ seq) (hfin : ¬ seq > sub32 c.transmitBufLength 1) :
    wp (ComplexConnection.writerConnectionDoNetworkData inc now seq sendTime)
      (fun _ c' _ => MovesTo c (c.window.ack inc seq) c') c := by
  rw [ComplexConnection.writerConnectionDoNetworkData, wp_bind, wp_modify, wp_bind,
    wp_setConnectionLeftWindowCursor, if_pos hle, wp_when, if_pos (by decide),
    wp_bind, wp_increaseRunningCount,
    wp_bind, wp_get, wp_ite, if_neg hfin, wp_bind]
  refine wp_mono _ window_lock fun old c₁ _ ⟨hold, h1, _⟩ => ?_
  have hold : old = 0 := by rw [hold]; simp [hlock]
  have h1 : c₁.window = { c.window with left := seq } := h1
  rw [wp_when, if_pos (by rw [hold]; decide), wp_bind]
  refine wp_mono _ (sameWindow.setConnectionRTO _ _ c₁) fun _ c₂ _ h2 => ?_
  have h2 : c₂.window = { c.window with left := seq } := h2.1.trans h1
  rw [wp_bind]
  refine wp_mono _ (window_recordSack (congrArg SendWindow.left h2))
    fun new c₃ _ ⟨h3, hnew, hthird⟩ => ?_
  rw [h2] at h3 hnew hthird
  have h3 : c₃.window = c.window.count seq := h3.1
  have hnew : new ≠ 0 ↔ c.window.recovers seq = true := hnew
  have hthird : c₃.sackSameCount ≥ 3 ↔ c.window.third seq := hthird
  rw [wp_bind, ComplexConnection.adjustWindow, wp_bind, wp_get, wp_ite]
  -- the lock is still held here; what is left of it is that it is released at the end
  have hend : ∀ c₄, c₄.window = c.window.ack inc seq → wp (do
      let _ ← ConM.testAndReset doingAckBit
      ConM.addToSenderQueue) (fun _ c' _ => MovesTo c (c.window.ack inc seq) c') c₄ := by
    intro c₄ h4
    rw [wp_bind]
    refine wp_mono _ window_unlock fun _ c₅ _ ⟨h5, h5'⟩ => ?_
    exact wp_mono _ (sameWindow.addToSenderQueue c₅) fun _ c₆ _ h6 =>
      ⟨h6.1.trans (h5.trans h4), (h6.2.trans h5').trans hlock.symm⟩
  by_cases ht : c.window.third seq
  · rw [if_pos (hthird.2 ht), wp_bind, wp_modify, wp_bind]
    refine wp_mono _ window_setSack fun _ c₄ _ h4 => hend c₄ ?_
    rw [h4.1, window_congestion, h3, SendWindow.ack, if_pos ht]
  · rw [if_neg (mt hthird.1 ht)]
    refine wp_mono _ (window_growWindow inc new) fun _ c₄ _ h4 => hend c₄ ?_
    rw [h4.1, h3, SendWindow.ack, if_neg ht]
    by_cases hr : c.window.recovers seq = true
    · have hs : (c.window.count seq).ssthresh = c.window.ssthresh := by
        unfold SendWindow.count; split <;> rfl
      rw [if_pos (hnew.2 hr), if_pos hr, hs]
    · rw [if_neg (mt hnew.1 hr), if_neg hr]

end refine

end Resend.Udp
