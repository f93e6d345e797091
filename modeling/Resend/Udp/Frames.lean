import Resend.Udp.Lifecycle

/-!
# Frames of handlers

What handlers have in common, proved once for any relation between the connection before and after and
the effects in between. A `ConFrame` does not mind the bookkeeping every handler does; a `StopFrame`
does not mind the end of a transfer either. Each property of handlers is then a frame of its own, and
only the parts that it is about need a proof.
-/

namespace Resend.Udp
open Handler Connection ConM

/-- The peer's id, the running count and the round-trip times may differ. -/
def SameButTimes (c c' : Connection) : Prop :=
  ∃ id1 runningCount tryTime srtt rttvar rto,
    c' = { c with id1 := id1, runningCount := runningCount, tryTime := tryTime, srtt := srtt,
                  rttvar := rttvar, rto := rto }

/-- Timers of `c` other than the last one and the sender queue. -/
def Effect.bookkeeping (c : Connection) : Effect → Bool
  | .addToSendQueue offset => offset = c.offset
  | .addTimer _ t _ offset => t ≠ .connectionSuspendTimer ∧ t ≠ .recverSuccTimer ∧ offset = c.offset
  | _ => false

structure ConFrame (R : Connection → Connection → List Effect → Prop) : Prop extends Frame R where
  times : ∀ {c c'}, SameButTimes c c' → R c c' []
  set : ∀ {k}, 4 ≤ k → k < 8 → Keeps R (testAndSet k)
  reset : ∀ {k}, 4 ≤ k → k < 8 → Keeps R (testAndReset k)
  bookkeeping : ∀ {e : Effect} {c}, e.bookkeeping c = true → R c c [e]

namespace ConFrame
variable {R : Connection → Connection → List Effect → Prop} (hR : ConFrame R)
include hR

theorem increaseRunningCount : Keeps R ConM.increaseRunningCount :=
  keeps_modify fun _ => hR.times ⟨_, _, _, _, _, _, rfl⟩

theorem setTryTime (f : Connection → Nat) :
    Keeps R (modify fun c => { c with tryTime := f c } : ConM Unit) :=
  keeps_modify fun _ => hR.times ⟨_, _, _, _, _, _, rfl⟩

theorem addToTimerQueue {dueTime : Int} {t : TimerType}
    (ht : t ≠ .connectionSuspendTimer ∧ t ≠ .recverSuccTimer) :
    Keeps R (ConM.addToTimerQueue dueTime t) :=
  keeps_get_bind fun _ => hR.bookkeeping (by simpa [Effect.bookkeeping] using ht)

theorem addToSenderQueue : Keeps R ConM.addToSenderQueue :=
  hR.bind (hR.set (by decide) (by decide)) fun _ =>
    keeps_ite (keeps_get_bind fun _ => hR.bookkeeping (by simp [Effect.bookkeeping]))
      (hR.bind (hR.set (by decide) (by decide)) fun _ => hR.pure _)

theorem rtoSample (rtt : Int) : Keeps R (modify (ConM.rtoSample rtt) : ConM Unit) := by
  refine keeps_modify fun c => hR.times ?_
  unfold ConM.rtoSample
  split
  exacts [⟨_, _, _, _, _, _, rfl⟩, ⟨_, _, _, _, _, _, rfl⟩]

theorem setConnectionRTO (now sendTime : Nat) : Keeps R (ConM.setConnectionRTO now sendTime) :=
  hR.bind (hR.set (by decide) (by decide)) fun _ => hR.when <| hR.bind (hR.rtoSample _) fun _ =>
    hR.bind (hR.reset (by decide) (by decide)) fun _ => hR.pure _

theorem setConnectionRTODouble : Keeps R ConM.setConnectionRTODouble :=
  hR.bind (hR.set (by decide) (by decide)) fun _ => hR.when <|
    hR.bind (keeps_modify fun _ => hR.times ⟨_, _, _, _, _, _, rfl⟩) fun _ =>
    hR.bind (hR.reset (by decide) (by decide)) fun _ => hR.pure _

theorem adoptPeer (herase : ∀ c label id, R c c [.eraseWaitAck label id]) (msgType : MsgType)
    (fromId : Nat) :
    Keeps R (ConM.adoptPeer msgType fromId) := by
  have herase : Keeps R (do
      let old ← testAndReset inRecvWaitAckQueueBit
      when (old = 1) do
        let c ← get
        emit (Effect.eraseWaitAck c.labelField fromId) : ConM Unit) :=
    hR.bind (hR.reset (by decide) (by decide)) fun _ =>
      hR.when (keeps_get_bind fun c => herase c _ _)
  have hid : Keeps R (modify fun c => { c with id1 := fromId } : ConM Unit) :=
    keeps_modify fun _ => hR.times ⟨_, _, _, _, _, _, rfl⟩
  cases msgType <;> first | exact herase | exact hid | exact hR.pure ()

theorem armKeepingTimer : Keeps R ComplexConnection.armKeepingTimer :=
  hR.bind hR.get fun _ => hR.addToTimerQueue (by decide)

theorem rebackSender : Keeps R ComplexConnection.rebackSender :=
  hR.bind (hR.set (by decide) (by decide)) fun _ => hR.armKeepingTimer

end ConFrame

/-- A frame that survives the end of a transfer, with any code but success. -/
structure StopFrame (R : Connection → Connection → List Effect → Prop) : Prop extends ConFrame R where
  code : ∀ {code}, code ≠ .successfully → Keeps R (setTransResultCode code)
  setClean : Keeps R (testAndSet bufCleanBit)
  setStop : Keeps R (testAndSet forceStopBit)
  suspend : ∀ c, R c c [.suspendConnectionID c.offset]
  suspendTimer : ∀ due c, R c c [.addTimer due .connectionSuspendTimer c.runningCount c.offset]
  resetDatagram : ∀ {d addr c}, d.msgType = .transReset → R c c [.kernelSend d addr]

namespace StopFrame
variable {R : Connection → Connection → List Effect → Prop} (hR : StopFrame R)
include hR

theorem transSuspend : Keeps R ConM.transSuspend :=
  hR.bind hR.setClean fun _ => hR.when <| keeps_get_bind fun c =>
    hR.trans (hR.suspend c) (hR.suspendTimer _ c)

theorem stopTransfer {code : TransResultCode} (hcode : code ≠ .successfully) :
    Keeps R (ConM.stopTransfer code) :=
  hR.bind (hR.code hcode) fun _ => hR.bind hR.refl fun _ =>
    keeps_ite hR.transSuspend (hR.addToTimerQueue (by decide))

theorem connectionDoConnectionReset (msgType : MsgType) :
    Keeps R (ConM.connectionDoConnectionReset msgType) :=
  hR.bind hR.setStop fun _ => hR.when (hR.stopTransfer (by split <;> decide))

theorem connectionDoConnectionStop : Keeps R ConM.connectionDoConnectionStop :=
  hR.bind hR.setStop fun _ => hR.when <| hR.bind (hR.stopTransfer (by decide)) fun _ =>
    hR.bind hR.get fun _ => keeps_emit fun _ => hR.resetDatagram rfl

theorem readerCheckDead (runningCount : Nat) : Keeps R (ConM.readerCheckDead runningCount) :=
  hR.bind hR.get fun _ => keeps_ite
    (hR.bind (hR.code (by decide)) fun _ => hR.transSuspend) (hR.addToTimerQueue (by decide))

end StopFrame

/-- What a reader keeps about the transfer may differ: cursor, number of copies, ack collector and
code. -/
def SameButReceived (c c' : Connection) : Prop :=
  ∃ left count collector code,
    c' = { c with leftWindowCursor := left, memcpyCount := count, ackInfoCollector := collector,
                  transResultCode := code }

/-- A frame of everything a reader does with packets: it answers, copies while `trans_succ` is
clear, and pushes its message when it takes `trans_succ`. -/
structure ReaderFrame (R : Connection → Connection → List Effect → Prop) :
    Prop extends StopFrame R where
  received : ∀ {c c'}, SameButReceived c c' → R c c' []
  answer : ∀ d addr c, R c c [.kernelSend d addr]
  succTimer : ∀ due c, R c c [.addTimer due .recverSuccTimer c.runningCount c.offset]
  copy : ∀ {c}, c.has transSucBit = false →
    ∀ seq data len, wp (copyData seq data len) (fun _ c' es => R c c' es) c
  push : ∀ {f : Connection → Connection}, (∀ c, SameButReceived c (f c)) → Keeps R (do
    let old ← testAndSet transSucBit
    when (old = 0) do
      modify f
      pushMsg)

namespace ReaderFrame
variable {R : Connection → Connection → List Effect → Prop} (hR : ReaderFrame R)
include hR

theorem sendDatagram (t : MsgType) (sendTime dtNote : Nat) (data : List UInt8) :
    Keeps R (ConM.sendDatagram t sendTime dtNote data) :=
  keeps_get_bind fun c => hR.answer _ _ c

theorem readerSucc : Keeps R ComplexConnection.readerSucc := hR.push fun _ => ⟨_, _, _, _, rfl⟩

theorem readerCheckComplete : Keeps R SimpleConnection.readerCheckComplete :=
  hR.bind hR.get fun _ => hR.when (hR.push fun _ => ⟨_, _, _, _, rfl⟩)

theorem nextAck : Keeps R ComplexConnection.nextAck :=
  keeps_modifyGet fun _ => hR.received ⟨_, _, _, _, rfl⟩

theorem readerAck : Keeps R ComplexConnection.readerAck := by
  have hsack : ∀ type : AckType, Keeps R
      (if type = .sack then ConM.testAndSet readerSackBit else ConM.testAndReset readerSackBit) :=
        fun _ =>
    keeps_ite (hR.set (by decide) (by decide)) (hR.reset (by decide) (by decide))
  have hsucc : Keeps R (do
      ConM.setTransResultCode .successfully
      let old ← ConM.testAndSet setRecvSuccTimerBit
      Handler.when (old = 0) (ConM.addToTimerQueue recverSuccTimer .recverSuccTimer)) :=
    hR.bind (keeps_modify fun _ => hR.received ⟨_, _, _, _, rfl⟩) fun _ =>
    hR.bind (hR.set (by decide) (by decide)) fun _ => hR.when (keeps_get_bind fun c => hR.succTimer _ c)
  exact hR.bind hR.refl fun _ => hR.bind hR.refl fun _ => hR.when <|
    hR.bind hR.nextAck fun _ => hR.bind (hsack _) fun _ => hR.bind (hR.sendDatagram _ _ _ _) fun _ =>
    hR.bind hR.get fun _ => keeps_ite hsucc (hR.addToTimerQueue (by decide))

omit hR in
theorem dataGuard {stopped rest : ConM Unit} (hstopped : Keeps R stopped)
    (hrest : ∀ c, c.has transSucBit = false → wp rest (fun _ c' es => R c c' es) c) :
    Keeps R (do
      let stop ← ConM.bitTest forceStopBit
      let succ ← ConM.bitTest transSucBit
      if stop = 1 ∨ succ = 1 then stopped else rest) := by
  intro c
  rw [wp_bind, wp_bitTest (by decide), wp_bind, wp_bitTest (by decide), wp_ite]
  cases hs : c.has transSucBit with
  | true => rw [if_pos (.inr (by simp))]; exact hstopped c
  | false =>
    cases c.has forceStopBit with
    | true => rw [if_pos (.inl (by simp))]; exact hstopped c
    | false => rw [if_neg (by simp)]; exact hrest c hs

theorem simpleReader (seq sendTime : Nat) (data : List UInt8) (len : Int) :
    Keeps R (SimpleConnection.readerConnectionDoNetworkData seq sendTime data len) := by
  have hanswer : Keeps R (do
      let c ← Handler.get
      ConM.sendDatagram .simpleFileAck sendTime c.leftWindowCursor []) :=
    hR.bind hR.get fun _ => hR.sendDatagram _ _ _ _
  have hcount : Keeps R (do
      Handler.modify fun c => { c with memcpyCount := c.memcpyCount + 1 }
      SimpleConnection.readerCheckComplete) :=
    hR.bind (keeps_modify fun _ => hR.received ⟨_, _, _, _, rfl⟩) fun _ => hR.readerCheckComplete
  refine dataGuard (hR.bind hR.get fun _ =>
    keeps_ite (hR.sendDatagram _ _ _ _) (hR.sendDatagram _ _ _ _)) fun c hs => ?_
  rw [wp_bind, wp_increaseRunningCount, wp_bind, wp_get, wp_bind, wp_when]
  have h1 : R c { c with runningCount := c.runningCount + 1 } [] := hR.times ⟨_, _, _, _, _, _, rfl⟩
  split
  · rw [wp_bind, wp_modify, wp_bind]
    have h2 : R c { c with
        runningCount := c.runningCount + 1
        leftWindowCursor := u32 (seq + packetMaxDataLength) } [] :=
      hR.trans h1 (hR.received ⟨_, _, _, _, rfl⟩)
    refine wp_mono _ (hR.copy (by exact hs) seq data len) fun _ c₃ es₃ h3 => ?_
    refine wp_mono _ (hcount c₃) fun _ c₄ es₄ h4 => ?_
    refine wp_mono _ (hanswer c₄) fun _ c₅ es₅ h5 => ?_
    have h35 := hR.trans (hR.trans h3 h4) h5
    exact hR.trans h2 h35
  · exact wp_mono _ (hanswer _) fun _ _ _ h => hR.trans h1 h

theorem complexReader (seq sendTime : Nat) (data : List UInt8) (len : Int) :
    Keeps R (ComplexConnection.readerConnectionDoNetworkData seq sendTime data len) := by
  refine dataGuard (hR.bind hR.nextAck fun _ => hR.bind hR.get fun _ =>
    keeps_ite (hR.sendDatagram _ _ _ _) (hR.sendDatagram _ _ _ _)) fun c hs => ?_
  rw [wp_bind, wp_increaseRunningCount, wp_bind, ComplexConnection.collectorSet, wp_modifyGet, wp_when]
  have h0 : R c { c with runningCount := c.runningCount + 1 } [] := hR.times ⟨_, _, _, _, _, _, rfl⟩
  have h1 : R c { c with
      runningCount := c.runningCount + 1,
      ackInfoCollector := (c.ackInfoCollector.set seq sendTime).2 } [] :=
    hR.trans h0 (hR.received ⟨_, _, _, _, rfl⟩)
  split
  · exact wp_mono _ (hR.copy (by exact hs) seq data len) fun _ _ _ h => hR.trans h1 h
  · exact h1

theorem doNetworkData {c : Connection} (hr : c.kind.isWriter = false) (inc now seq sendTime : Nat)
    (data : List UInt8) (len : Int) :
    wp (ConM.doNetworkData inc now seq sendTime data len) (fun _ c' es => R c c' es) c := by
  rw [ConM.doNetworkData, wp_bind, wp_get]
  cases hk : c.kind with
  | simpleReader => exact hR.simpleReader seq sendTime data len c
  | complexReader => exact hR.complexReader seq sendTime data len c
  | simpleWriter | complexWriter => rw [hk] at hr; cases hr

/-- All timers of a reader, given what the two that end a transfer do. -/
theorem doTimeOut {c : Connection} (hr : c.kind.isWriter = false) {t : TimerType} (rc : Nat)
    (hreset : t = .forceResetTimer → wp ConM.readerForceReset (fun _ c' es => R c c' es) c)
    (hlast : t = .connectionSuspendTimer → wp ConM.readerSuspendTimeOut (fun _ c' es => R c c' es) c) :
    wp (ConM.doTimeOut t rc) (fun _ c' es => R c c' es) c := by
  rw [ConM.doTimeOut, wp_bind, wp_get]
  cases hk : c.kind with
  | simpleWriter | complexWriter => rw [hk] at hr; cases hr
  | simpleReader =>
    cases t with
    | forceResetTimer => exact hreset rfl
    | recverCheckDeadTimer => exact hR.readerCheckDead _ c
    | connectionSuspendTimer => exact hlast rfl
    | _ => exact hR.refl c
  | complexReader =>
    cases t with
    | forceResetTimer => exact hreset rfl
    | recverCheckDeadTimer => exact hR.readerCheckDead _ c
    | connectionSuspendTimer => exact hlast rfl
    | recverSuccTimer => exact hR.readerSucc c
    | recverAckTimer => exact hR.readerAck c
    | senderKeepingTimer => exact hR.refl c

theorem connectionDoSender {c : Connection} (hr : c.kind.isWriter = false)
    (hkind : ∀ {c c' es}, R c c' es → c'.kind = c.kind) (clock : Nat → Nat) :
    wp (ConM.connectionDoSender clock) (fun _ c' es => R c c' es) c := by
  have hsend : ∀ c : Connection, c.kind.isWriter = false →
      wp (ConM.doSend clock) (fun _ c' es => R c c' es) c := by
    intro c hr
    rw [ConM.doSend, wp_bind, wp_get]
    cases hk : c.kind with
    | simpleWriter | complexWriter => rw [hk] at hr; cases hr
    | simpleReader | complexReader => exact hR.refl c
  have hback : Keeps R (do
      let _ ← ConM.testAndReset inSenderBit
      let back ← ConM.testAndReset rebackSenderBit
      Handler.when (back = 1) ConM.addToSenderQueue) :=
    hR.bind (hR.reset (by decide) (by decide)) fun _ =>
      hR.bind (hR.reset (by decide) (by decide)) fun _ =>
      hR.when hR.addToSenderQueue
  have h1 : R c _ [] := hR.reset (k := rebackSenderBit) (by decide) (by decide) c
  exact hR.trans h1 (hR.trans (hsend _ (by rw [hkind h1]; exact hr)) (hback _))

theorem receiveFirst {c : Connection} (hr : c.kind.isWriter = false) (complex : Bool) (d : Datagram)
    (len : Int) :
    wp (ConM.receiveFirst complex d len) (fun _ c' es => R c c' es) c := by
  have harm : Keeps R (do
      ConM.addToTimerQueue connectionRecvCheckDeadTime .recverCheckDeadTimer
      Handler.when (complex = true) (ConM.addToTimerQueue recvAckTimer .recverAckTimer)) :=
    hR.bind (hR.addToTimerQueue (by decide)) fun _ => hR.when (hR.addToTimerQueue (by decide))
  rw [ConM.receiveFirst, wp_bind]
  exact wp_mono _ (hR.doNetworkData hr 0 0 0 d.sendTime d.data len) fun _ c₁ es₁ h =>
    hR.trans h (harm c₁)

end ReaderFrame

end Resend.Udp
