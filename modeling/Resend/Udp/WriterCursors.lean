import Resend.Udp.Packets
import Resend.Udp.SendWindow

/-!
# The cursors of a writer

Between sender runs a writer's handlers only move its left cursor to an ack and its old cursor to the
current one (`Moves`), and send no data. `Cursors` says that a writer is the one `start_sender` made and
that its cursors are at packet boundaries; then a sender run sends nothing but packets of the block.
-/

namespace Resend.Udp
open Handler Connection ConM

/-! ### Handlers -/

/-- What an ack of `seq`, a timeout, a stop or a reset do to a writer: the current cursor stays, the old
one may be set to it, the left one to `seq`; success needs a final ack, and no data goes out. -/
structure Moves (seq : Nat) (c c' : Connection) (es : List Effect) : Prop where
  source : SameSource c c'
  type : c'.has connectionTypeBit = c.has connectionTypeBit
  cur : c'.currentWindowCursor = c.currentWindowCursor
  old : c'.oldCurrentWindowCursor = c.oldCurrentWindowCursor ∨
    c'.oldCurrentWindowCursor = c.currentWindowCursor
  left : c'.leftWindowCursor = c.leftWindowCursor ∨ c'.leftWindowCursor = seq
  code : c'.transResultCode = .successfully →
    c.transResultCode = .successfully ∨ seq > sub32 c.transmitBufLength 1
  silent : ∀ d addr, Effect.kernelSend d addr ∈ es → d.msgType = .transReset

namespace Moves
variable {seq : Nat}

theorem emit (c : Connection) {e : Effect}
    (he : ∀ d addr, e = .kernelSend d addr → d.msgType = .transReset) :
    Moves seq c c [e] :=
  ⟨.refl c, rfl, rfl, .inl rfl, .inl rfl, .inl, fun d addr h => he d addr (List.mem_singleton.1 h).symm⟩

theorem testAndSet {k : Nat} (hk : 3 ≠ k) (hk' : k < 64) : Keeps (Moves seq) (ConM.testAndSet k) :=
  keeps_modifyGet fun _ => ⟨⟨rfl, rfl, rfl, rfl, rfl⟩, by simp [hk, hk'], rfl,
    .inl rfl, .inl rfl, .inl, by simp⟩

theorem testAndReset {k : Nat} (hk : 3 ≠ k) (hk' : k < 64) : Keeps (Moves seq) (ConM.testAndReset k) :=
  keeps_modifyGet fun _ => ⟨⟨rfl, rfl, rfl, rfl, rfl⟩, by simp [hk, hk'], rfl,
    .inl rfl, .inl rfl, .inl, by simp⟩

end Moves

theorem moves (seq : Nat) : StopFrame (Moves seq) where
  refl c := ⟨.refl c, rfl, rfl, .inl rfl, .inl rfl, .inl, by simp⟩
  trans h h' := by
    refine ⟨h.source.trans h'.source, h'.type.trans h.type, h'.cur.trans h.cur,
      ?_, ?_, fun hc => ?_, ?_⟩
    · rcases h'.old with ho | ho
      · rw [ho]; exact h.old
      · exact .inr (ho.trans h.cur)
    · rcases h'.left with hl | hl
      · rw [hl]; exact h.left
      · exact .inr hl
    · rcases h'.code hc with hc | hc
      · exact h.code hc
      · rw [h.source.length] at hc; exact .inr hc
    · intro d addr he
      rcases List.mem_append.1 he with he | he
      exacts [h.silent d addr he, h'.silent d addr he]
  times h := by
    obtain ⟨_, _, _, _, _, _, rfl⟩ := h
    exact ⟨⟨rfl, rfl, rfl, rfl, rfl⟩, rfl, rfl, .inl rfl, .inl rfl, .inl, by simp⟩
  set hk hk' := Moves.testAndSet (by omega) (by omega)
  reset hk hk' := Moves.testAndReset (by omega) (by omega)
  bookkeeping {e c} he := Moves.emit c fun d addr h => by rw [h] at he; cases he
  code hc := keeps_modify fun _ =>
    ⟨⟨rfl, rfl, rfl, rfl, rfl⟩, rfl, rfl, .inl rfl, .inl rfl, fun h => absurd h hc, by simp⟩
  setClean := Moves.testAndSet (by decide) (by decide)
  setStop := Moves.testAndSet (by decide) (by decide)
  suspend c := Moves.emit c fun _ _ h => by cases h
  suspendTimer _ c := Moves.emit c fun _ _ h => by cases h
  resetDatagram hd := Moves.emit _ fun d addr h => by cases h; exact hd

namespace Moves
variable {seq : Nat}

theorem packetsOf {a : SendArgs} {c c' : Connection} {es : List Effect} (h : Moves seq c c' es) :
    PacketsOf a es :=
  fun d addr hd => Datagram.packetOf_reset (h.silent d addr hd)

theorem window {f : Connection → Connection}
    (h : ∀ c, ∃ w, f c = { c with toComplexWriterFields := w } ∧ w.currentWindowCursor =
      c.currentWindowCursor ∧ w.oldCurrentWindowCursor = c.oldCurrentWindowCursor) :
    Keeps (Moves seq) (Handler.modify f : ConM Unit) := by
  refine keeps_modify fun c => ?_
  obtain ⟨w, hw, hcur, hold⟩ := h c
  rw [hw]
  exact ⟨⟨rfl, rfl, rfl, rfl, rfl⟩, rfl, hcur, .inl hold, .inl rfl, .inl, by simp⟩

theorem setConnectionLeftWindowCursor (seq : Nat) :
    Keeps (Moves seq) (ConM.setConnectionLeftWindowCursor seq) := by
  refine keeps_modifyGet fun c => ⟨⟨rfl, rfl, rfl, rfl, rfl⟩, rfl, rfl, .inl rfl, ?_, .inl, by simp⟩
  rw [exchangeLoop_two]
  split
  exacts [.inr rfl, .inl rfl]

theorem writerCongestion :
    Keeps (Moves seq) (Handler.modify ComplexConnection.writerCongestion : ConM Unit) :=
  keeps_modify fun _ => ⟨⟨rfl, rfl, rfl, rfl, rfl⟩, rfl, rfl, .inr rfl, .inl rfl, .inl, by simp⟩

theorem recordSack (seq' : Nat) : Keeps (Moves seq) (ComplexConnection.recordSack seq') :=
  (moves seq).bind (moves seq).get fun _ => keeps_ite
    ((moves seq).bind (window fun _ => ⟨_, rfl, rfl, rfl⟩) fun _ =>
      keeps_ite (testAndReset (by decide) (by decide)) ((moves seq).pure _))
    ((moves seq).bind (window fun _ => ⟨_, rfl, rfl, rfl⟩) fun _ => (moves seq).pure _)

theorem nextWindow (inc : Nat) :
    Keeps (Moves seq) (Handler.modify (ComplexConnection.nextWindow inc) : ConM Unit) := by
  refine window fun c => ?_
  unfold ComplexConnection.nextWindow
  split
  exacts [⟨_, rfl, rfl, rfl⟩, ⟨_, rfl, rfl, rfl⟩]

theorem adjustWindow (inc : Nat) (isNewSack : Int) :
    Keeps (Moves seq) (ComplexConnection.adjustWindow inc isNewSack) :=
  (moves seq).bind (moves seq).get fun _ => keeps_ite
    ((moves seq).bind writerCongestion fun _ =>
      (moves seq).bind (testAndSet (by decide) (by decide)) fun _ => (moves seq).pure _)
    ((moves seq).bind (keeps_ite
      ((moves seq).bind (window fun _ => ⟨_, rfl, rfl, rfl⟩) fun _ =>
        (moves seq).bind (testAndSet (by decide) (by decide)) fun _ => (moves seq).pure _)
      (nextWindow inc)) fun _ =>
    (moves seq).bind (moves seq).refl fun _ => (moves seq).when (window fun _ => ⟨_, rfl, rfl, rfl⟩))

theorem ack {rest : ConM Unit} (hrest : Keeps (Moves seq) rest) : Keeps (Moves seq) (do
    Handler.modify fun c => { c with tryTime := 0 }
    let res ← ConM.setConnectionLeftWindowCursor seq
    Handler.when (¬ res = -1) do
      increaseRunningCount
      let c ← Handler.get
      if seq > sub32 c.transmitBufLength 1 then
        setTransResultCode .successfully
        transSuspend
      else rest) := by
  refine (moves seq).bind ((moves seq).setTryTime fun _ => 0) fun _ =>
    (moves seq).bind (setConnectionLeftWindowCursor seq) fun _ => (moves seq).when <|
    (moves seq).bind (moves seq).increaseRunningCount fun _ => keeps_get_bind fun c => ?_
  rw [wp_ite]
  split <;> rename_i hfin
  · rw [wp_bind, wp_setTransResultCode]
    have hcode : Moves seq c { c with transResultCode := .successfully } [] :=
      ⟨⟨rfl, rfl, rfl, rfl, rfl⟩, rfl, rfl, .inl rfl, .inl rfl, fun _ => .inr hfin, by simp⟩
    exact (moves seq).trans hcode ((moves seq).transSuspend _)
  · exact hrest c

theorem keeping {rest : ConM Unit} (hrest : Keeps (Moves seq) rest) (runningCount : Nat) :
    Keeps (Moves seq) (do
      let c ← Handler.get
      Handler.when (c.runningCount = runningCount) do
      Handler.modify fun c => { c with tryTime := c.tryTime + 1 }
      let c ← Handler.get
      if c.tryTime = sendTryTime then
        setTransResultCode .timeOut
        transSuspend
      else rest) :=
  (moves seq).bind (moves seq).get fun _ => (moves seq).when <|
    (moves seq).bind ((moves seq).setTryTime fun c => c.tryTime + 1) fun _ =>
    (moves seq).bind (moves seq).get fun _ =>
    keeps_ite ((moves seq).bind ((moves seq).code (by decide)) fun _ => (moves seq).transSuspend) hrest

variable {c : Connection}

theorem connectionDoNetworkData (hw : c.kind.isWriter = true) (inc now : Nat) (d : Datagram)
    (len : Int) :
    wp (ConM.connectionDoNetworkData inc now d len) (fun _ c' es => Moves d.dtNote c c' es) c := by
  have hsimple : Keeps (Moves d.dtNote)
      (SimpleConnection.writerConnectionDoNetworkData now d.dtNote d.sendTime) :=
    ack ((moves _).bind ((moves _).setConnectionRTO _ _) fun _ => (moves _).addToSenderQueue)
  have hcomplex : Keeps (Moves d.dtNote)
      (ComplexConnection.writerConnectionDoNetworkData inc now d.dtNote d.sendTime) :=
    ack ((moves _).bind (testAndSet (by decide) (by decide)) fun _ => (moves _).when <|
      (moves _).bind ((moves _).setConnectionRTO _ _) fun _ => (moves _).bind (recordSack _) fun _ =>
      (moves _).bind (adjustWindow _ _) fun _ =>
      (moves _).bind (testAndReset (by decide) (by decide)) fun _ => (moves _).addToSenderQueue)
  have hpeer : Keeps (Moves d.dtNote) (Handler.when (d.dtNote = packetMaxDataLength)
      (adoptPeer d.msgType d.fromId)) := (moves _).when
        ((moves _).adoptPeer (fun c _ _ => .emit c fun _ _ h => by cases h) _ _)
  rw [ConM.connectionDoNetworkData, wp_bind]
  refine wp_mono _ (hpeer c) fun _ c₁ es₁ h1 => ?_
  rw [doNetworkData, wp_bind, wp_get, h1.source.kind]
  cases hk : c.kind with
  | simpleWriter => exact wp_mono _ (hsimple c₁) fun _ _ _ h2 => (moves _).trans h1 h2
  | complexWriter => exact wp_mono _ (hcomplex c₁) fun _ _ _ h2 => (moves _).trans h1 h2
  | simpleReader | complexReader => rw [hk] at hw; cases hw

theorem doTimeOut (hw : c.kind.isWriter = true) {t : TimerType} (ht : t ≠ .connectionSuspendTimer)
    (rc : Nat) :
    wp (ConM.doTimeOut t rc) (fun _ c' es => Moves seq c c' es) c := by
  have hsimple : Keeps (Moves seq)
      (SimpleConnection.writerConnectionDoTimeOut .senderKeepingTimer rc) :=
    keeping ((moves seq).bind (moves seq).setConnectionRTODouble fun _ =>
      (moves seq).addToSenderQueue) rc
  have hcomplex : Keeps (Moves seq)
      (ComplexConnection.writerConnectionDoTimeOut .senderKeepingTimer rc) :=
    keeping ((moves seq).bind (moves seq).setConnectionRTODouble fun _ =>
      (moves seq).bind (testAndSet (by decide) (by decide)) fun _ =>
      (moves seq).bind ((moves seq).when ((moves seq).bind writerCongestion fun _ =>
        (moves seq).bind (testAndReset (by decide) (by decide)) fun _ => (moves seq).pure _)) fun _ =>
      (moves seq).bind (testAndSet (by decide) (by decide)) fun _ => (moves seq).addToSenderQueue) rc
  rw [ConM.doTimeOut, wp_bind, wp_get]
  cases hk : c.kind with
  | simpleWriter =>
    cases t
    case senderKeepingTimer => exact hsimple c
    case connectionSuspendTimer => exact absurd rfl ht
    all_goals exact (moves seq).refl c
  | complexWriter =>
    cases t
    case senderKeepingTimer => exact hcomplex c
    case connectionSuspendTimer => exact absurd rfl ht
    all_goals exact (moves seq).refl c
  | simpleReader | complexReader => rw [hk] at hw; cases hw

end Moves

/-! ### The suspend timer -/

/-- The writer has called back and given up its slot and its memory. -/
structure Freed (c c' : Connection) (es : List Effect) : Prop where
  kind : c'.kind = c.kind
  type : c'.has connectionTypeBit = c.has connectionTypeBit
  length : c'.transmitBufLength = c.transmitBufLength
  code : c'.transResultCode = c.transResultCode
  silent : ∀ d addr, Effect.kernelSend d addr ∉ es
  slot : ∀ slot, es.foldl Life.slotAfter slot = .null

theorem writerDone_silent {c : Connection} {d : Datagram} {addr : Nat} :
    Effect.kernelSend d addr ∉ writerDone c := by
  intro he
  unfold writerDone at he
  split at he
  · rcases List.mem_append.1 he with he | he
    · obtain ⟨n, -, he⟩ := List.mem_flatMap.1 he
      rcases List.mem_append.1 he with he | he
      · simp at he
      · split at he <;> simp at he
    · simp at he
  · split at he
    · simp at he
    · rcases List.mem_cons.1 he with he | he
      · cases he
      · split at he
        · split at he <;> simp at he
        · simp at he

theorem suspendTimeOut_cases {c : Connection} (hw : c.kind.isWriter = true)
    (htype : c.has connectionTypeBit = true) (rc : Nat) :
    wp (doTimeOut .connectionSuspendTimer rc) (fun _ c' es => Moves 0 c c' es ∨ Freed c c' es) c := by
  have key : wp writerSuspendTimeOut (fun _ c' es => Moves 0 c c' es ∨ Freed c c' es) c := by
    rw [writerSuspendTimeOut, wp_bind, wp_testAndSet (by decide), wp_when]
    cases hs : c.has transSucBit with
    | true =>
      rw [if_neg (by simp)]
      exact .inl (Moves.testAndSet (by decide) (by decide) c)
    | false =>
      rw [if_pos (by simp), wp_bind, wp_writerDone, wp_bind, wp_get, wp_bind, wp_emit,
        wp_freeConnection_writer (by simpa using htype)]
      refine .inr ⟨rfl, by simp, rfl, rfl, fun d addr hd => ?_, fun slot => ?_⟩
      · rcases List.mem_append.1 hd with hd | hd
        · cases hd
        · rcases List.mem_append.1 hd with hd | hd
          · exact writerDone_silent hd
          · simp at hd
      · simp only [List.nil_append, List.foldl_append]
        rfl
  rw [doTimeOut, wp_bind, wp_get]
  cases hk : c.kind with
  | simpleWriter | complexWriter => exact key
  | simpleReader | complexReader => rw [hk] at hw; cases hw

/-! ### Cursors -/

/-- A packet boundary in 32 bits. -/
def Boundary (n : Nat) : Prop := packetMaxDataLength ∣ n ∧ n < 2 ^ 32

theorem boundary_zero : Boundary 0 := ⟨dvd_zero _, by decide⟩

structure Cursors (a : SendArgs) (c : Connection) : Prop where
  kind : c.kind = if a.blockLength ≤ smallFileMaxSize then .simpleWriter else .complexWriter
  type : c.has connectionTypeBit = true
  buf : c.transmitBuf = a.block
  node : c.transMessageNode = a.node
  len : c.transmitBufLength = a.blockLength
  left : Boundary c.leftWindowCursor
  cur : Boundary c.currentWindowCursor
  old : Boundary c.oldCurrentWindowCursor

namespace Cursors
variable {a : SendArgs} {c c' : Connection} {es : List Effect}

theorem start (a : SendArgs) (id0 id1 : Nat) : Cursors a (newWriter a id0 id1) := by
  refine ⟨?_, ?_, rfl, rfl, rfl, ?_, ?_, ?_⟩ <;> simp only [newWriter]
  · split <;> rfl
  · split <;> simp [construct]
  all_goals split <;> exact boundary_zero

theorem writer (h : Cursors a c) : c.kind.isWriter = true := by
  rw [h.kind]; split <;> rfl

theorem moves {seq : Nat} (h : Cursors a c) (hseq : Boundary seq) (hm : Moves seq c c' es) :
    Cursors a c' := by
  refine ⟨hm.source.kind.trans h.kind, hm.type.trans h.type, hm.source.buf.trans h.buf,
    hm.source.node.trans h.node, hm.source.length.trans h.len, ?_, hm.cur ▸ h.cur, ?_⟩
  · rcases hm.left with hl | hl
    · rw [hl]; exact h.left
    · rw [hl]; exact hseq
  · rcases hm.old with ho | ho
    · rw [ho]; exact h.old
    · rw [ho]; exact h.cur

theorem quiet (h : Cursors a c) (hq : Quiet c c' es) {w : SendWindow} (hw : c'.window = w)
    (hleft : Boundary w.left) (hcur : Boundary w.cur) (hold : Boundary w.old) : Cursors a c' := by
  subst hw
  exact ⟨hq.source.kind.trans h.kind, (hq.bits _ (by decide)).trans h.type, hq.source.buf.trans h.buf,
    hq.source.node.trans h.node, hq.source.length.trans h.len, hleft, hcur, hold⟩

theorem fillData (h : Cursors a c) (ha : a.WF) {seq : Nat} (hseq : seq < a.blockLength) :
    c.fillData seq = some (a.chunk seq) := by
  have hsrc : c.source = a.bytes := by rw [source, SendArgs.bytes, h.buf, h.node]
  rw [fillData_eq (h.len ▸ hseq) (h.len ▸ ha.length) (by rw [hsrc, h.len]; exact ha.le_bytes),
    hsrc, h.len, SendArgs.chunk]

end Cursors

/-! ### Sender runs -/

namespace SendWindow

theorem process_cur (w : SendWindow) :
    (w.newAck = true ∧ w.process.cur = w.old) ∨
      (w.newAck = false ∧ (w.timeOut = true ∨ w.sack = true) ∧ w.process.cur = u32 w.left) ∨
      w.process.cur = w.cur := by
  simp only [process]
  split
  · exact .inl ⟨‹_›, rfl⟩
  · split
    · rename_i hn hb
      exact .inr (.inl ⟨by simpa using hn, by simpa using hb, rfl⟩)
    · exact .inr (.inr rfl)

end SendWindow

section sender
variable {a : SendArgs} {c : Connection}

theorem process_silent (c : Connection) :
    wp ComplexConnection.processSenderMsgBit (fun _ _ es => es = []) c := by
  simp only [ComplexConnection.processSenderMsgBit, wp_bind, wp_when, wp_modify, wp_pure,
    wp_testAndReset (k := hasTimeOutBit) (by decide), wp_testAndReset (k := hasSackBit) (by decide),
    wp_testAndReset (k := sackHasNewAckBit) (by decide),
    wp_testAndSet (k := stillDoingSackBit) (by decide)]
  cases c.has hasTimeOutBit <;> cases c.has hasSackBit <;> cases c.has sackHasNewAckBit <;> simp_all

theorem process_cursors (h : Cursors a c) :
    wp ComplexConnection.processSenderMsgBit
      (fun _ c' es => es = [] ∧ Cursors a c' ∧ c'.window = c.window.process) c := by
  refine wp_mono _ (wp_and _ (wp_and _ window_process (Quiet.processSenderMsgBit c)) (process_silent c))
    fun _ c' es ⟨⟨hw, hq⟩, hes⟩ => ⟨hes, h.quiet hq hw.1 h.left ?_ h.old, hw.1⟩
  rcases c.window.process_cur with ⟨-, hp⟩ | ⟨-, -, hp⟩ | hp <;> rw [hp]
  · exact h.old
  · rw [show u32 c.window.left = c.leftWindowCursor from u32_of_lt h.left.2]; exact h.left
  · exact h.cur

theorem buildAndSend_packetOf (h : Cursors a c) (ha : a.WF) (hlen : smallFileMaxSize < a.blockLength)
    (hlt : c.currentWindowCursor < a.blockLength) (now : Nat) :
    wp (ComplexConnection.buildAndSend now)
      (fun _ c' es => PacketsOf a es ∧ Cursors a c' ∧ c'.window = c.window) c := by
  refine wp_mono _ (wp_and _ (wp_and _ (buildAndSend_packet now c) (Quiet.buildAndSend now c))
    (SameWindow.buildAndSend now c)) fun _ c' es ⟨⟨⟨t, hes, ht⟩, hq⟩, hw, _⟩ =>
      ⟨?_, h.quiet hq hw h.left h.cur h.old, hw⟩
  intro d addr hd
  rw [hes, List.mem_singleton, Effect.kernelSend.injEq] at hd
  obtain ⟨rfl, -⟩ := hd
  rw [h.fillData ha hlt, Option.getD_some]
  by_cases hz : c.currentWindowCursor = 0
  · rw [if_pos hz] at ht
    have hfirst : u32 (if c.currentWindowCursor = 0 then c.transmitBufLength
      else c.currentWindowCursor) =
        a.blockLength := by rw [if_pos hz, h.len, u32_of_lt ha.length]
    rw [hfirst, hz]
    rcases ht with rfl | rfl <;> exact ⟨hlen, rfl, rfl⟩
  · rw [if_neg hz] at ht
    have hlater : u32 (if c.currentWindowCursor = 0 then c.transmitBufLength
      else c.currentWindowCursor) =
        c.currentWindowCursor := by rw [if_neg hz, u32_of_lt h.cur.2]
    rw [hlater, ht]
    exact ⟨hlen, ⟨h.cur.1, Nat.pos_of_ne_zero hz, hlt⟩, rfl⟩

theorem advance_cursors (h : Cursors a c) (hlt : c.currentWindowCursor + packetMaxDataLength < 2 ^ 32) :
    wp ComplexConnection.advanceCursor
      (fun _ c' es => es = [] ∧ Cursors a c' ∧ c'.window = c.window.advance) c := by
  rw [ComplexConnection.advanceCursor, wp_modify]
  refine ⟨rfl, ⟨h.kind, h.type, h.buf, h.node, h.len, h.left, ?_, h.old⟩, rfl⟩
  simp only [u32_of_lt hlt]
  exact ⟨Dvd.dvd.add h.cur.1 (dvd_refl _), hlt⟩

theorem Cursors.ofMoves {x : ConM Unit} (h : Cursors a c) (hx : Keeps (Moves 0) x) :
    wp x (fun _ c' es => PacketsOf a es ∧ Cursors a c') c :=
  wp_mono _ (hx c) fun _ _ _ hm => ⟨hm.packetsOf, h.moves boundary_zero hm⟩

variable (ha : a.WF)
include ha

/-- Undisturbed, the loop finds nothing to process and stays at boundaries inside the block. -/
theorem sendLoop_packets (hlen : smallFileMaxSize < a.blockLength)
    (hmax : a.blockLength ≤ 2 ^ 32 - packetMaxDataLength) (clock : Nat → Nat) (n : Nat)
    (h : Cursors a c) (hs : c.window.Settled) :
    wp (ComplexConnection.sendLoop clock n) (fun _ c' es => PacketsOf a es ∧ Cursors a c') c := by
  induction n generalizing c with
  | zero =>
    rw [ComplexConnection.sendLoop, wp_bind, wp_get, wp_ite]
    split
    · rw [wp_bind]
      refine wp_mono _ (process_cursors h) fun _ c₁ es₁ hrun => ?_
      obtain ⟨hes, h1, _⟩ := hrun
      rw [hes]
      exact h1.ofMoves (moves 0).rebackSender
    · exact h.ofMoves (moves 0).armKeepingTimer
  | succ n ih =>
    rw [ComplexConnection.sendLoop, wp_bind, wp_get, wp_ite]
    split <;> rename_i hc
    · rw [wp_bind]
      refine wp_mono _ (process_cursors h) fun _ c₁ es₁ hrun => ?_
      obtain ⟨hes, h1, hw₁⟩ := hrun
      rw [SendWindow.process_eq hs] at hw₁
      have hlt : c₁.currentWindowCursor < a.blockLength :=
        h.len ▸ lt_of_eq_of_lt (congrArg SendWindow.cur hw₁) hc.2
      rw [hes, wp_bind]
      refine wp_mono _ (buildAndSend_packetOf h1 ha hlen hlt _) fun _ c₂ es₂ hrun => ?_
      obtain ⟨hp, h2, hw₂⟩ := hrun
      have hlt₂ : c₂.currentWindowCursor + packetMaxDataLength < 2 ^ 32 := by
        have : c₂.currentWindowCursor = c₁.currentWindowCursor := congrArg SendWindow.cur hw₂
        simp only [packetMaxDataLength] at hmax ⊢
        omega
      rw [wp_bind]
      refine wp_mono _ (advance_cursors h2 hlt₂) fun _ c₃ es₃ hrun => ?_
      obtain ⟨hes₃, h3, hw₃⟩ := hrun
      have hs₃ : c₃.window.Settled := by rw [hw₃, hw₂, hw₁]; exact hs
      rw [hes₃]
      exact wp_mono _ (ih h3 hs₃) fun _ c₄ es₄ hrun => ⟨hp.append hrun.1, hrun.2⟩
    · exact h.ofMoves (moves 0).armKeepingTimer

theorem complexDoSend_packets (hlen : smallFileMaxSize < a.blockLength)
    (hmax : a.blockLength ≤ 2 ^ 32 - packetMaxDataLength) (h : Cursors a c)
    (hstop : c.has forceStopBit = false) (clock : Nat → Nat) :
    wp (ComplexConnection.writerConnectionDoSend clock) (fun _ c' es =>
      PacketsOf a es ∧ Cursors a c') c := by
  rw [ComplexConnection.writerConnectionDoSend, wp_bind, wp_bitTest (by decide), wp_ite,
    if_neg (by simp [hstop]), wp_bind]
  refine wp_mono _ (process_cursors h) fun _ c₁ es₁ hrun => ?_
  obtain ⟨hes, h1, hw₁⟩ := hrun
  rw [hes]
  exact sendLoop_packets ha hlen hmax clock 16 h1 (hw₁ ▸ SendWindow.settled_process _)

theorem simpleDoSend_packets (hpos : 0 < a.blockLength) (hlen : a.blockLength ≤ smallFileMaxSize)
    (h : Cursors a c) (hstop : c.has forceStopBit = false) (now : Nat) :
    wp (SimpleConnection.writerConnectionDoSend now) (fun _ c' es =>
      PacketsOf a es ∧ Cursors a c') c := by
  rw [SimpleConnection.writerConnectionDoSend, wp_bind, wp_bitTest (by decide), wp_ite,
    if_neg (by simp [hstop]), wp_bind, wp_get, wp_when, u32_of_lt h.left.2, h.len,
    sub32_of_le ha.length hpos]
  split <;> rename_i hle
  · have hlt : c.leftWindowCursor < a.blockLength := by omega
    have hsend : Keeps (Moves 0) (do
        ConM.increaseRunningCount
        let c ← Handler.get
        ConM.addToTimerQueue c.rto .senderKeepingTimer) :=
      (moves 0).bind (moves 0).increaseRunningCount fun _ => (moves 0).armKeepingTimer
    rw [wp_bind, SimpleConnection.sendMsgType, wp_ite, h.fillData ha hlt, Option.getD_some]
    by_cases hz : c.leftWindowCursor = 0
    · simp only [if_pos hz]
      rw [wp_bind, wp_testAndSet (by decide), wp_pure, wp_bind, wp_sendDatagram]
      have h1 : Cursors a { c with status := (c.status.testAndSet hasSendRequieBit).2 } :=
        h.moves boundary_zero ((moves 0).set (by decide) (by decide) c)
      refine wp_mono _ (h1.ofMoves hsend) fun _ c' es hrun => ⟨PacketsOf.cons ?_ hrun.1, hrun.2⟩
      rw [u32_of_lt ha.length, hz]
      cases c.has hasSendRequieBit <;> exact ⟨hlen, rfl, rfl⟩
    · simp only [if_neg hz]
      rw [wp_pure, wp_bind, wp_sendDatagram]
      refine wp_mono _ (h.ofMoves hsend) fun _ c' es hrun => ⟨PacketsOf.cons ?_ hrun.1, hrun.2⟩
      rw [u32_of_lt h.left.2]
      exact ⟨hlen, ⟨h.left.1, Nat.pos_of_ne_zero hz, hlt⟩, rfl⟩
  · exact ⟨PacketsOf.nil, h⟩

theorem connectionDoSender_packets (hpos : 0 < a.blockLength)
    (hmax : a.blockLength ≤ 2 ^ 32 - packetMaxDataLength) (h : Cursors a c)
    (hstop : c.has forceStopBit = false) (clock : Nat → Nat) :
    wp (connectionDoSender clock) (fun _ c' es => PacketsOf a es ∧ Cursors a c') c := by
  have hsend : ∀ c, Cursors a c → c.has forceStopBit = false →
      wp (doSend clock) (fun _ c' es => PacketsOf a es ∧ Cursors a c') c := by
    intro c h hstop
    rw [doSend, wp_bind, wp_get, h.kind]
    by_cases hlen : a.blockLength ≤ smallFileMaxSize
    · rw [if_pos hlen]
      exact simpleDoSend_packets ha hpos hlen h hstop _
    · rw [if_neg hlen]
      exact complexDoSend_packets ha (Nat.lt_of_not_le hlen) hmax h hstop _
  have h0 : wp (ConM.testAndReset rebackSenderBit) (fun _ c' es => Moves 0 c c' es ∧ Quiet c c' es) c :=
    ⟨(moves 0).reset (by decide) (by decide) c, quiet.reset (by decide) (by decide) c⟩
  have hrest : Keeps (Moves 0) (do
      let _ ← ConM.testAndReset inSenderBit
      let back ← ConM.testAndReset rebackSenderBit
      Handler.when (back = 1) ConM.addToSenderQueue) :=
    (moves 0).bind ((moves 0).reset (by decide) (by decide)) fun _ =>
    (moves 0).bind ((moves 0).reset (by decide) (by decide)) fun _ =>
      (moves 0).when (moves 0).addToSenderQueue
  rw [connectionDoSender, wp_bind]
  refine wp_mono _ h0 fun _ c₁ es₁ hrun => ?_
  obtain ⟨h1, hq⟩ := hrun
  rw [wp_bind]
  refine wp_mono _ (hsend c₁ (h.moves boundary_zero h1) ((hq.bits _ (by decide)).trans hstop))
    fun _ c₂ es₂ hrun => ?_
  obtain ⟨hp₂, h2⟩ := hrun
  exact wp_mono _ (h2.ofMoves hrest) fun _ c₃ es₃ hrun =>
    ⟨h1.packetsOf.append (hp₂.append hrun.1), hrun.2⟩

end sender

end Resend.Udp
