import Resend.Udp.Frames

/-!
# What a handler may touch

Whatever a handler does to the process, it does to its own slot: timers, sender queue and suspension
all name the connection's own offset, and neither the kind nor the id changes (`Own`). A reader also
keeps its peer, its label and its place among the waiting readers (`Stays`). Three handlers are
different: the last timer of a connection frees it (`Frees`), and a datagram with sequence number
1452 may end a reader's wait or give a writer its peer.
-/

namespace Resend.Udp
open Handler Connection ConM

/-- Everything a running connection may do outside. -/
def Effect.ordinary (c : Connection) : Effect → Bool
  | .addTimer _ _ _ offset | .addToSendQueue offset | .suspendConnectionID offset => offset = c.offset
  | .releaseConnectionID _ | .freeConnection | .eraseWaitAck .. => false
  | _ => true

/-- Effects that only concern buffers, callbacks and the network. -/
def Effect.inert : Effect → Bool
  | .addTimer .. | .addToSendQueue _ | .suspendConnectionID _ | .releaseConnectionID _ | .freeConnection
  | .eraseWaitAck .. => false
  | _ => true

theorem Effect.ordinary_of_inert {c : Connection} {e : Effect} (h : e.inert = true) :
    e.ordinary c = true := by
  cases e <;> simp_all [inert, ordinary]

theorem Effect.ordinary_congr {c c' : Connection} (h : c.offset = c'.offset) {e : Effect} :
    e.ordinary c = e.ordinary c' := by
  cases e <;> simp only [ordinary, h]

structure Own (c c' : Connection) (es : List Effect) : Prop where
  kind : c'.kind = c.kind
  id0 : c'.id0 = c.id0
  type : c'.has connectionTypeBit = c.has connectionTypeBit
  effects : ∀ e ∈ es, e.ordinary c = true

namespace Own
variable {c c' : Connection}

theorem emit {e : Effect} (he : e.ordinary c = true) : Own c c [e] :=
  ⟨rfl, rfl, rfl, by simpa using he⟩

theorem update (hk : c'.kind = c.kind) (hi : c'.id0 = c.id0) (hs : c'.status = c.status) :
    Own c c' [] :=
  ⟨hk, hi, by rw [has, has, hs], by simp⟩

theorem testAndSet {k : Nat} (hk : k < 64) (h3 : k ≠ 3) : Keeps Own (ConM.testAndSet k) :=
  keeps_modifyGet fun c => ⟨rfl, rfl, by simp [hk, h3.symm], by simp⟩

theorem testAndReset {k : Nat} (hk : k < 64) (h3 : k ≠ 3) : Keeps Own (ConM.testAndReset k) :=
  keeps_modifyGet fun c => ⟨rfl, rfl, by simp [hk, h3.symm], by simp⟩

theorem trans {c'' : Connection} {es es' : List Effect} (h : Own c c' es) (h' : Own c' c'' es') :
    Own c c'' (es ++ es') := by
  refine ⟨h'.kind.trans h.kind, h'.id0.trans h.id0, h'.type.trans h.type, fun e he => ?_⟩
  rcases List.mem_append.1 he with he | he
  · exact h.effects e he
  · have hoff : c'.offset = c.offset := by rw [offset, offset, h.id0]
    rw [← Effect.ordinary_congr hoff]
    exact h'.effects e he

theorem times (h : SameButTimes c c') : Own c c' [] := by
  obtain ⟨_, _, _, _, _, _, rfl⟩ := h
  exact .update rfl rfl rfl

theorem bookkeeping {e : Effect} (he : e.bookkeeping c = true) : Own c c [e] :=
  emit (by cases e <;> simp_all [Effect.bookkeeping, Effect.ordinary])

end Own

theorem own : StopFrame Own where
  refl _ := .update rfl rfl rfl
  trans := .trans
  times := .times
  set hk hk' := .testAndSet (by omega) (by omega)
  reset hk hk' := .testAndReset (by omega) (by omega)
  bookkeeping := .bookkeeping
  code _ := keeps_modify fun _ => .update rfl rfl rfl
  setClean := .testAndSet (by decide) (by decide)
  setStop := .testAndSet (by decide) (by decide)
  suspend c := .emit (by simp [Effect.ordinary])
  suspendTimer _ c := .emit (by simp [Effect.ordinary])
  resetDatagram _ := .emit rfl

/-! ### Writers -/

namespace Own
variable {c : Connection}

theorem modify {f : Connection → Connection} (hf : ∀ c, (f c).kind = c.kind ∧ (f c).id0 = c.id0 ∧
    (f c).status = c.status) : Keeps Own (Handler.modify f : ConM Unit) :=
  keeps_modify fun c => .update (hf c).1 (hf c).2.1 (hf c).2.2

theorem sendDatagram (t : MsgType) (sendTime dtNote : Nat) (data : List UInt8) :
    Keeps Own (ConM.sendDatagram t sendTime dtNote data) :=
  own.bind own.get fun _ => keeps_emit fun _ => emit rfl

theorem processSenderMsgBit : Keeps Own ComplexConnection.processSenderMsgBit := by
  have hreset : ∀ k < 64, k ≠ 3 → Keeps Own (ConM.testAndReset k) := fun k hk h3 => testAndReset hk h3
  exact own.bind (hreset _ (by decide) (by decide)) fun _ =>
    own.bind (own.when (modify fun _ => ⟨rfl, rfl, rfl⟩)) fun _ =>
    own.bind (hreset _ (by decide) (by decide)) fun _ =>
    own.bind (own.when (own.bind (modify fun _ => ⟨rfl, rfl, rfl⟩)
      fun _ => own.bind (testAndSet (by decide) (by decide)) fun _ => own.pure _)) fun _ =>
    own.bind (hreset _ (by decide) (by decide)) fun _ => own.when (modify fun _ => ⟨rfl, rfl, rfl⟩)

theorem buildAndSend (now : Nat) : Keeps Own (ComplexConnection.buildAndSend now) :=
  own.bind own.get fun _ =>
  own.bind (keeps_ite (own.bind (own.set (by decide) (by decide)) fun _ => own.pure _) (own.pure _))
    fun _ => own.bind (sendDatagram _ _ _ _) fun _ => own.increaseRunningCount

theorem sendLoop (clock : Nat → Nat) (n : Nat) : Keeps Own (ComplexConnection.sendLoop clock n) := by
  induction n with
  | zero =>
    exact own.bind own.get fun _ => keeps_ite
      (own.bind processSenderMsgBit fun _ => own.rebackSender) own.armKeepingTimer
  | succ n ih =>
    exact own.bind own.get fun _ => keeps_ite (own.bind processSenderMsgBit fun _ =>
      own.bind (buildAndSend _) fun _ => own.bind (modify fun _ => ⟨rfl, rfl, rfl⟩) fun _ =>
        ih) own.armKeepingTimer

theorem doSend (clock : Nat → Nat) : Keeps Own (ConM.doSend clock) := by
  have hsimple : Keeps Own (SimpleConnection.writerConnectionDoSend (clock 0)) :=
    own.bind own.refl fun _ => keeps_ite own.transSuspend <| own.bind own.get fun _ => own.when <|
      own.bind (keeps_ite (own.bind (own.set (by decide) (by decide)) fun _ =>
        own.pure _) (own.pure _)) fun _ =>
      own.bind (sendDatagram _ _ _ _) fun _ => own.bind own.increaseRunningCount fun _ =>
      own.bind own.get fun _ => own.addToTimerQueue (by decide)
  have hcomplex : Keeps Own (ComplexConnection.writerConnectionDoSend clock) :=
    own.bind own.refl fun _ => keeps_ite own.transSuspend <|
      own.bind processSenderMsgBit fun _ => sendLoop _ _
  intro c
  rw [ConM.doSend, wp_bind, wp_get]
  cases c.kind
  exacts [hsimple c, hcomplex c, own.refl c, own.refl c]

theorem connectionDoSender (clock : Nat → Nat) : Keeps Own (ConM.connectionDoSender clock) :=
  own.bind (own.reset (by decide) (by decide)) fun _ => own.bind (doSend clock) fun _ =>
    own.bind (own.reset (by decide) (by decide)) fun _ =>
      own.bind (own.reset (by decide) (by decide)) fun _ =>
    own.when own.addToSenderQueue

theorem recordSack (seq : Nat) : Keeps Own (ComplexConnection.recordSack seq) :=
  own.bind own.get fun _ => keeps_ite
    (own.bind (modify fun _ => ⟨rfl, rfl, rfl⟩) fun _ =>
      keeps_ite (testAndReset (by decide) (by decide)) (own.pure _))
    (own.bind (modify fun _ => ⟨rfl, rfl, rfl⟩) fun _ => own.pure _)

theorem adjustWindow (inc : Nat) (isNewSack : Int) :
    Keeps Own (ComplexConnection.adjustWindow inc isNewSack) := by
  have hnext : Keeps Own (Handler.modify (ComplexConnection.nextWindow inc) : ConM Unit) := by
    refine modify fun c => ?_
    unfold ComplexConnection.nextWindow
    split
    exacts [⟨rfl, rfl, rfl⟩, ⟨rfl, rfl, rfl⟩]
  exact own.bind own.get fun _ => keeps_ite
    (own.bind (modify fun _ => ⟨rfl, rfl, rfl⟩) fun _ =>
      own.bind (testAndSet (by decide) (by decide)) fun _ => own.pure _)
    (own.bind (keeps_ite
      (own.bind (modify fun _ => ⟨rfl, rfl, rfl⟩) fun _ =>
        own.bind (testAndSet (by decide) (by decide)) fun _ => own.pure _)
      hnext) fun _ => own.bind own.refl fun _ => own.when (modify fun _ => ⟨rfl, rfl, rfl⟩))

theorem ack {rest : ConM Unit} (hrest : Keeps Own rest) (seq : Nat) :
    Keeps Own (do
      Handler.modify fun c => { c with tryTime := 0 }
      let res ← setConnectionLeftWindowCursor seq
      Handler.when (¬ res = -1) do
        increaseRunningCount
        let c ← Handler.get
        if seq > sub32 c.transmitBufLength 1 then
          setTransResultCode .successfully
          ConM.transSuspend
        else rest) :=
  own.bind (own.setTryTime _) fun _ => own.bind (keeps_modifyGet fun _ => .update rfl rfl rfl) fun _ =>
    own.when <| own.bind own.increaseRunningCount fun _ => own.bind own.get fun _ =>
    keeps_ite (own.bind (modify fun _ => ⟨rfl, rfl, rfl⟩) fun _ => own.transSuspend) hrest

theorem writerDoNetworkData (hw : c.kind.isWriter = true) (inc now seq sendTime : Nat)
    (data : List UInt8) (len : Int) :
    wp (doNetworkData inc now seq sendTime data len) (fun _ c' es => Own c c' es) c := by
  rw [doNetworkData, wp_bind, wp_get]
  cases hk : c.kind with
  | simpleWriter =>
    exact ack (own.bind (own.setConnectionRTO _ _) fun _ => own.addToSenderQueue) seq c
  | complexWriter =>
    exact ack (own.bind (testAndSet (by decide) (by decide)) fun _ => own.when <|
      own.bind (own.setConnectionRTO _ _) fun _ => own.bind (recordSack _) fun _ =>
      own.bind (adjustWindow _ _) fun _ => own.bind (testAndReset (by decide) (by decide)) fun _ =>
      own.addToSenderQueue) seq c
  | simpleReader | complexReader => rw [hk] at hw; cases hw

theorem writerKeepingTimer {again : ConM Unit} (hagain : Keeps Own again) (rc : Nat) :
    Keeps Own (do
      let c ← Handler.get
      Handler.when (c.runningCount = rc) do
        Handler.modify fun c => { c with tryTime := c.tryTime + 1 }
        let c ← Handler.get
        if c.tryTime = sendTryTime then
          setTransResultCode .timeOut
          ConM.transSuspend
        else
          setConnectionRTODouble
          again) := by
  have hfail : Keeps Own (do setTransResultCode .timeOut; ConM.transSuspend) :=
    own.bind (own.code (by decide)) fun _ => own.transSuspend
  exact own.bind own.get fun _ => own.when <| own.bind (own.setTryTime _) fun _ =>
    own.bind own.get fun _ =>
    keeps_ite hfail (own.bind own.setConnectionRTODouble fun _ => hagain)

theorem congestion : Keeps Own (do
    let locked ← ConM.testAndSet doingAckBit
    Handler.when (locked = 0) do
      Handler.modify ComplexConnection.writerCongestion
      let _ ← ConM.testAndReset doingAckBit
    let _ ← ConM.testAndSet hasTimeOutBit
    ConM.addToSenderQueue) := by
  have hlocked : Keeps Own (do
      Handler.modify ComplexConnection.writerCongestion
      let _ ← ConM.testAndReset doingAckBit : ConM Unit) :=
    own.bind (modify fun _ => ⟨rfl, rfl, rfl⟩) fun _ =>
      own.bind (testAndReset (by decide) (by decide)) fun _ => own.pure ()
  exact own.bind (testAndSet (by decide) (by decide)) fun _ => own.bind (own.when hlocked) fun _ =>
    own.bind (testAndSet (by decide) (by decide)) fun _ => own.addToSenderQueue

theorem writerDoTimeOut (hw : c.kind.isWriter = true) {t : TimerType}
    (ht : t ≠ .connectionSuspendTimer) (rc : Nat) :
    wp (doTimeOut t rc) (fun _ c' es => Own c c' es) c := by
  rw [doTimeOut, wp_bind, wp_get]
  cases hk : c.kind with
  | simpleWriter =>
    cases t
    case connectionSuspendTimer => exact absurd rfl ht
    case senderKeepingTimer => exact writerKeepingTimer own.addToSenderQueue rc c
    all_goals exact own.refl c
  | complexWriter =>
    cases t
    case connectionSuspendTimer => exact absurd rfl ht
    case senderKeepingTimer => exact writerKeepingTimer congestion rc c
    all_goals exact own.refl c
  | simpleReader | complexReader => rw [hk] at hw; cases hw

end Own

/-! ### Readers -/

/-- A handler that leaves a reader's peer, label and waiting bit alone. -/
structure Stays (c c' : Connection) (es : List Effect) : Prop extends Own c c' es where
  id1 : c'.id1 = c.id1
  label : c'.requireDuplicateLabel = c.requireDuplicateLabel
  waits : c'.has inRecvWaitAckQueueBit = c.has inRecvWaitAckQueueBit

theorem stays : Frame Stays where
  refl c := ⟨own.refl c, rfl, rfl, rfl⟩
  trans h h' := ⟨own.trans h.toOwn h'.toOwn, h'.id1.trans h.id1,
    h'.label.trans h.label, h'.waits.trans h.waits⟩

namespace Stays
variable {c : Connection}

theorem modify {f : Connection → Connection}
    (hf : ∀ c, (f c).kind = c.kind ∧ (f c).id0 = c.id0 ∧ (f c).status = c.status ∧
      (f c).id1 = c.id1 ∧ (f c).requireDuplicateLabel = c.requireDuplicateLabel) :
    Keeps Stays (Handler.modify f : ConM Unit) := by
  refine keeps_modify fun c => ?_
  obtain ⟨hk, h0, hs, h1, hl⟩ := hf c
  exact ⟨.update hk h0 hs, h1, hl, by rw [has, has, hs]⟩

theorem emit {e : Effect} (he : ∀ c, e.ordinary c = true) : Keeps Stays (Handler.emit e) :=
  keeps_emit fun c => ⟨.emit (he c), rfl, rfl, rfl⟩

theorem testAndSet {k : Nat} (hk : k < 64) (h3 : k ≠ 3) (h4 : k ≠ 4) :
    Keeps Stays (ConM.testAndSet k) :=
  keeps_modifyGet fun c => ⟨Own.testAndSet hk h3 c, rfl, rfl, by simp [hk, h4.symm]⟩

theorem testAndReset {k : Nat} (hk : k < 64) (h3 : k ≠ 3) (h4 : k ≠ 4) :
    Keeps Stays (ConM.testAndReset k) :=
  keeps_modifyGet fun c => ⟨Own.testAndReset hk h3 c, rfl, rfl, by simp [hk, h4.symm]⟩

theorem addToTimerQueue (due : Int) (t : TimerType) : Keeps Stays (ConM.addToTimerQueue due t) :=
  keeps_get_bind fun _ => ⟨.emit (by simp [Effect.ordinary]), rfl, rfl, rfl⟩

theorem transSuspend : Keeps Stays ConM.transSuspend := by
  have hend : Keeps Stays (do
      let c ← Handler.get
      Handler.emit (.suspendConnectionID c.offset)
      ConM.addToTimerQueue connectionMaxSuspendTime .connectionSuspendTimer) :=
    keeps_get_bind fun c => stays.trans ⟨.emit (by simp [Effect.ordinary]), rfl, rfl,
      rfl⟩ (addToTimerQueue _ _ c)
  exact stays.bind (testAndSet (by decide) (by decide) (by decide)) fun _ => stays.when hend

theorem sendDatagram (t : MsgType) (sendTime dtNote : Nat) (data : List UInt8) :
    Keeps Stays (ConM.sendDatagram t sendTime dtNote data) :=
  stays.bind stays.get fun _ => emit fun _ => rfl

theorem setTransResultCode (code : TransResultCode) : Keeps Stays (ConM.setTransResultCode code) :=
  modify fun _ => ⟨rfl, rfl, rfl, rfl, rfl⟩

theorem increaseRunningCount : Keeps Stays ConM.increaseRunningCount :=
  modify fun _ => ⟨rfl, rfl, rfl, rfl, rfl⟩

theorem stopTransfer (code : TransResultCode) : Keeps Stays (ConM.stopTransfer code) :=
  stays.bind (setTransResultCode _) fun _ => stays.bind stays.refl fun _ =>
    keeps_ite transSuspend (addToTimerQueue _ _)

theorem connectionDoConnectionReset (msgType : MsgType) :
    Keeps Stays (ConM.connectionDoConnectionReset msgType) :=
  stays.bind (testAndSet (by decide) (by decide) (by decide)) fun _ => stays.when (stopTransfer _)

theorem connectionDoConnectionStop : Keeps Stays ConM.connectionDoConnectionStop :=
  stays.bind (testAndSet (by decide) (by decide) (by decide)) fun _ =>
    stays.when (stays.bind (stopTransfer _) fun _ => sendDatagram _ _ _ _)

theorem connectionDoRequireDuplicate (complex : Bool) (d : Datagram) (addr : Nat) :
    Keeps Stays (ConM.connectionDoRequireDuplicate complex d addr) :=
  stays.bind stays.get fun _ => stays.when (sendDatagram _ _ _ _)

theorem readerDone_inert (c : Connection) : ∀ e ∈ readerDone c, e.inert = true := by
  intro e he
  unfold readerDone at he
  split at he
  · rcases List.mem_append.1 he with he | he
    · obtain ⟨h, _, rfl⟩ := List.mem_map.1 he
      rfl
    · split at he <;> simp only [List.mem_cons, List.not_mem_nil, or_false] at he
      · rcases he with rfl | rfl <;> rfl
      all_goals (subst he; rfl)
  · cases he

theorem readerForceReset : Keeps Stays ConM.readerForceReset := by
  have hdone : Keeps Stays readerDoConnectionSendedHandleAndCleanData := fun c =>
    ⟨⟨rfl, rfl, rfl, fun e he => Effect.ordinary_of_inert (readerDone_inert c e he)⟩, rfl, rfl, rfl⟩
  exact stays.bind (testAndSet (by decide) (by decide) (by decide)) fun _ => stays.when hdone

theorem readerCheckDead (rc : Nat) : Keeps Stays (ConM.readerCheckDead rc) :=
  stays.bind stays.get fun _ => keeps_ite
    (stays.bind (setTransResultCode _) fun _ => transSuspend) (addToTimerQueue _ _)

theorem pushMsg : Keeps Stays ConM.pushMsg := stays.bind stays.get fun _ => emit fun _ => rfl

theorem readerSucc : Keeps Stays ComplexConnection.readerSucc :=
  stays.bind (testAndSet (by decide) (by decide) (by decide)) fun _ => stays.when pushMsg

theorem nextAck : Keeps Stays ComplexConnection.nextAck :=
  keeps_modifyGet fun _ => ⟨.update rfl rfl rfl, rfl, rfl, rfl⟩

theorem readerAck : Keeps Stays ComplexConnection.readerAck := by
  have hsack : ∀ type : AckType, Keeps Stays
      (if type = .sack then ConM.testAndSet readerSackBit else ConM.testAndReset readerSackBit) :=
        fun _ =>
    keeps_ite (testAndSet (by decide) (by decide) (by decide))
      (testAndReset (by decide) (by decide) (by decide))
  have hsucc : Keeps Stays (do
      ConM.setTransResultCode .successfully
      let old ← ConM.testAndSet setRecvSuccTimerBit
      Handler.when (old = 0) (ConM.addToTimerQueue recverSuccTimer .recverSuccTimer)) :=
    stays.bind (setTransResultCode _) fun _ =>
      stays.bind (testAndSet (by decide) (by decide) (by decide)) fun _ =>
        stays.when (addToTimerQueue _ _)
  exact stays.bind stays.refl fun _ => stays.bind stays.refl fun _ => stays.when <|
    stays.bind nextAck fun _ => stays.bind (hsack _) fun _ => stays.bind (sendDatagram _ _ _ _) fun _ =>
    stays.bind stays.get fun _ => keeps_ite hsucc (addToTimerQueue _ _)

theorem copyData (seq : Nat) (data : List UInt8) (len : Int) :
    Keeps Stays (ConM.copyData seq data len) :=
  stays.bind (modify fun _ => ⟨rfl, rfl, rfl, rfl, rfl⟩) fun _ => emit fun _ => rfl

theorem simpleReader (seq sendTime : Nat) (data : List UInt8) (len : Int) :
    Keeps Stays (SimpleConnection.readerConnectionDoNetworkData seq sendTime data len) := by
  have hstopped : Keeps Stays (SimpleConnection.readerAnswerStopped seq sendTime) :=
    stays.bind stays.get fun _ => keeps_ite (sendDatagram _ _ _ _) (sendDatagram _ _ _ _)
  have hcomplete : Keeps Stays SimpleConnection.readerCheckComplete :=
    stays.bind stays.get fun _ => stays.when <|
      stays.bind (testAndSet (by decide) (by decide) (by decide)) fun _ =>
      stays.when (stays.bind (setTransResultCode _) fun _ => pushMsg)
  have htake : Keeps Stays (do
      Handler.modify fun c => { c with leftWindowCursor := u32 (seq + packetMaxDataLength) }
      ConM.copyData seq data len
      Handler.modify fun c => { c with memcpyCount := c.memcpyCount + 1 }
      SimpleConnection.readerCheckComplete) :=
    stays.bind (modify fun _ => ⟨rfl, rfl, rfl, rfl, rfl⟩) fun _ => stays.bind (copyData _ _ _) fun _ =>
      stays.bind (modify fun _ => ⟨rfl, rfl, rfl, rfl, rfl⟩) fun _ => hcomplete
  exact stays.bind stays.refl fun _ => stays.bind stays.refl fun _ => keeps_ite hstopped <|
    stays.bind increaseRunningCount fun _ => stays.bind stays.get fun _ =>
      stays.bind (stays.when htake) fun _ =>
    stays.bind stays.get fun _ => sendDatagram _ _ _ _

theorem complexReader (seq sendTime : Nat) (data : List UInt8) (len : Int) :
    Keeps Stays (ComplexConnection.readerConnectionDoNetworkData seq sendTime data len) := by
  have hstopped : Keeps Stays ComplexConnection.readerAnswerStopped :=
    stays.bind nextAck fun _ => stays.bind stays.get fun _ =>
      keeps_ite (sendDatagram _ _ _ _) (sendDatagram _ _ _ _)
  have hset : Keeps Stays (ComplexConnection.collectorSet seq sendTime) :=
    keeps_modifyGet fun _ => ⟨.update rfl rfl rfl, rfl, rfl, rfl⟩
  exact stays.bind stays.refl fun _ => stays.bind stays.refl fun _ => keeps_ite hstopped <|
    stays.bind increaseRunningCount fun _ => stays.bind hset fun _ => stays.when (copyData _ _ _)

theorem readerDoNetworkData (hr : c.kind.isWriter = false) (inc now seq sendTime : Nat)
    (data : List UInt8) (len : Int) :
    wp (doNetworkData inc now seq sendTime data len) (fun _ c' es => Stays c c' es) c := by
  rw [doNetworkData, wp_bind, wp_get]
  cases hk : c.kind with
  | simpleReader => exact simpleReader seq sendTime data len c
  | complexReader => exact complexReader seq sendTime data len c
  | simpleWriter | complexWriter => rw [hk] at hr; cases hr

theorem readerDoTimeOut (hr : c.kind.isWriter = false) {t : TimerType}
    (ht : t ≠ .connectionSuspendTimer) (rc : Nat) :
    wp (doTimeOut t rc) (fun _ c' es => Stays c c' es) c := by
  rw [doTimeOut, wp_bind, wp_get]
  cases hk : c.kind with
  | simpleReader =>
    cases t
    case connectionSuspendTimer => exact absurd rfl ht
    case forceResetTimer => exact readerForceReset c
    case recverCheckDeadTimer => exact readerCheckDead rc c
    all_goals exact stays.refl c
  | complexReader =>
    cases t
    case connectionSuspendTimer => exact absurd rfl ht
    case forceResetTimer => exact readerForceReset c
    case recverCheckDeadTimer => exact readerCheckDead rc c
    case recverSuccTimer => exact readerSucc c
    case recverAckTimer => exact readerAck c
    all_goals exact stays.refl c
  | simpleWriter | complexWriter => rw [hk] at hr; cases hr

theorem receiveFirst (hr : c.kind.isWriter = false) (complex : Bool) (d : Datagram) (len : Int) :
    wp (ConM.receiveFirst complex d len) (fun _ c' es => Stays c c' es) c := by
  have harm : Keeps Stays (do
      ConM.addToTimerQueue connectionRecvCheckDeadTime .recverCheckDeadTimer
      Handler.when (complex = true) (ConM.addToTimerQueue recvAckTimer .recverAckTimer)) :=
    stays.bind (addToTimerQueue _ _) fun _ => stays.when (addToTimerQueue _ _)
  rw [ConM.receiveFirst, wp_bind]
  exact wp_mono _ (readerDoNetworkData hr 0 0 0 d.sendTime d.data len) fun _ c₁ es₁ h =>
    stays.trans h (harm c₁)

end Stays

/-! ### The last timer -/

/-- What `free_connetcion` takes out of `Recv_Wait_Ack_Queue`. -/
def Connection.erased (c : Connection) : List Effect :=
  if ¬ c.has connectionTypeBit ∧ c.has inRecvWaitAckQueueBit then [.eraseWaitAck c.labelField c.id1]
  else []

/-- The connection releases its slot and is freed. -/
def Frees (c : Connection) (es : List Effect) : Prop :=
  ∃ pre, es = pre ++ .releaseConnectionID c.offset :: (c.erased ++ [.freeConnection]) ∧
    ∀ e ∈ pre, e.inert = true

theorem freeConnection_effects (c : Connection) :
    wp ConM.freeConnection (fun _ _ es => es = c.erased ++ [.freeConnection]) c := by
  rw [ConM.freeConnection, wp_bind, wp_bitTest (by decide)]
  cases h3 : c.has connectionTypeBit with
  | true => simp [Connection.erased, h3]
  | false =>
    cases h4 : c.has inRecvWaitAckQueueBit with
    | true => simp [Connection.erased, h3, h4, wp_testAndReset, labelField]
    | false => simp [Connection.erased, h3, h4, wp_testAndReset]

theorem writerDone_inert (c : Connection) : ∀ e ∈ writerDone c, e.inert = true := by
  intro e he
  unfold writerDone at he
  split at he
  · rcases List.mem_append.1 he with he | he
    · obtain ⟨n, _, he⟩ := List.mem_flatMap.1 he
      rcases List.mem_append.1 he with he | he
      · obtain ⟨h, _, rfl⟩ := List.mem_map.1 he
        rfl
      · split at he
        · rw [List.mem_singleton.1 he]; rfl
        · cases he
    · obtain ⟨n, _, rfl⟩ := List.mem_map.1 he
      rfl
  · split at he
    · cases he
    · rcases List.mem_cons.1 he with rfl | he
      · rfl
      · split at he
        · rw [List.mem_singleton.1 he]; split <;> rfl
        · cases he

namespace Frees
variable {c : Connection}

theorem last {c₁ : Connection} (pre : List Effect) (hpre : ∀ e ∈ pre, e.inert = true)
    (ho : c₁.offset = c.offset) (he : c₁.erased = c.erased) :
    wp (do
      let c ← Handler.get
      Handler.emit (.releaseConnectionID c.offset)
      ConM.freeConnection) (fun _ _ es => Frees c (pre ++ es)) c₁ := by
  simp only [wp_bind, wp_get, wp_emit]
  refine wp_mono _ (freeConnection_effects c₁) fun _ _ es h => ⟨pre, ?_, hpre⟩
  rw [h, ho, he]
  rfl

theorem erased_eq {c₁ : Connection} (hs : ∀ k, k = 3 ∨ k = 4 → c₁.has k = c.has k)
    (hk : c₁.kind = c.kind) (hsrtt : c₁.srtt = c.srtt)
    (hl : c₁.requireDuplicateLabel = c.requireDuplicateLabel) (h1 : c₁.id1 = c.id1) :
    c₁.erased = c.erased := by
  simp only [Connection.erased, labelField, hs _ (.inl rfl), hs _ (.inr rfl), hk, hsrtt, hl, h1]

theorem writer (hc : c.has transSucBit = false) :
    wp writerSuspendTimeOut (fun _ _ es => Frees c es) c := by
  rw [writerSuspendTimeOut, wp_bind, wp_testAndSet (by decide), wp_when,
    if_pos (by simp [hc]), wp_bind, wp_writerDone]
  exact last _ (writerDone_inert _) rfl (erased_eq (by rintro k (rfl | rfl) <;> simp) rfl rfl rfl rfl)

theorem reader : wp readerSuspendTimeOut (fun _ _ es => Frees c es) c := by
  rw [readerSuspendTimeOut, wp_bind, ConM.readerForceReset, wp_bind, wp_testAndSet (by decide), wp_when]
  have heq : ({ c with status := (c.status.testAndSet transSucBit).2 } : Connection).erased =
      c.erased :=
    erased_eq (by rintro k (rfl | rfl) <;> simp) rfl rfl rfl rfl
  cases hc : c.has transSucBit with
  | true =>
    rw [if_neg (by simp)]
    exact last (c := c) [] (by simp) rfl heq
  | false =>
    rw [if_pos (by simp), wp_readerDone]
    exact last (c := c) _ (Stays.readerDone_inert _) rfl heq

/-- `Connection_Suspend_Timer` frees the connection, unless a writer has been through that before. -/
theorem suspendTimer (rc : Nat) :
    wp (doTimeOut .connectionSuspendTimer rc) (fun _ c' es => Own c c' es ∧ c.kind.isWriter = true ∨
      Frees c es) c := by
  rw [doTimeOut, wp_bind, wp_get]
  have hwriter : c.kind.isWriter = true →
      wp writerSuspendTimeOut (fun _ c' es => Own c c' es ∧ c.kind.isWriter = true ∨ Frees c es) c := by
    intro hw
    cases hc : c.has transSucBit with
    | true =>
      rw [writerSuspendTimeOut, wp_bind, wp_testAndSet (by decide), wp_when, if_neg (by simp [hc])]
      exact .inl ⟨⟨rfl, rfl, by simp, by simp⟩, hw⟩
    | false => exact wp_mono _ (writer hc) fun _ _ _ h => .inr h
  cases hk : c.kind with
  | simpleWriter | complexWriter =>
    have := hwriter (by rw [hk]; rfl)
    rwa [hk] at this
  | simpleReader | complexReader => exact wp_mono _ reader fun _ _ _ h => .inr h

end Frees

/-! ### Any handler -/

/-- The kind, the id and the type stay, and no effect concerns another slot. -/
structure Local (c c' : Connection) (es : List Effect) : Prop where
  kind : c'.kind = c.kind
  id0 : c'.id0 = c.id0
  type : c'.has connectionTypeBit = c.has connectionTypeBit
  effects : ∀ e ∈ es, e.ordinary c = true ∨ ∃ label id, e = .eraseWaitAck label id

theorem Own.local {c c' : Connection} {es : List Effect} (h : Own c c' es) : Local c c' es :=
  ⟨h.kind, h.id0, h.type, fun e he => .inl (h.effects e he)⟩

namespace Own

theorem doNetworkData (inc now seq sendTime : Nat) (data : List UInt8) (len : Int) :
    Keeps Own (ConM.doNetworkData inc now seq sendTime data len) := by
  intro c
  cases hk : c.kind.isWriter with
  | true => exact writerDoNetworkData hk inc now seq sendTime data len
  | false => exact (Stays.readerDoNetworkData hk inc now seq sendTime data len).toOwn

theorem receiveFirst (complex : Bool) (d : Datagram) (len : Int) :
    Keeps Own (ConM.receiveFirst complex d len) :=
  own.bind (doNetworkData 0 0 0 d.sendTime d.data len) fun _ =>
    own.bind (own.addToTimerQueue (by decide)) fun _ => own.when (own.addToTimerQueue (by decide))

theorem doTimeOut {t : TimerType} (ht : t ≠ .connectionSuspendTimer) (rc : Nat) :
    Keeps Own (ConM.doTimeOut t rc) := by
  intro c
  cases hk : c.kind.isWriter with
  | true => exact writerDoTimeOut hk ht rc
  | false => exact (Stays.readerDoTimeOut hk ht rc).toOwn

end Own

/-- A timer that does not free its connection leaves a reader waiting as before. -/
theorem doTimeOut_own_or_frees (c : Connection) (t : TimerType) (rc : Nat) :
    wp (doTimeOut t rc) (fun _ c' es =>
      (Own c c' es ∧ (c.kind.isWriter = false → Stays c c' es)) ∨ Frees c es) c := by
  by_cases ht : t = .connectionSuspendTimer
  · subst ht
    refine wp_mono _ (Frees.suspendTimer rc) fun _ c' es h => ?_
    rcases h with ⟨h, hw⟩ | h
    · exact .inl ⟨h, fun hr => by rw [hw] at hr; cases hr⟩
    · exact .inr h
  · exact .inl ⟨Own.doTimeOut ht rc c, fun hr => Stays.readerDoTimeOut hr ht rc⟩

theorem Local.trans {c c' c'' : Connection} {es es' : List Effect} (h : Local c c' es)
    (h' : Local c' c'' es') :
    Local c c'' (es ++ es') := by
  refine ⟨h'.kind.trans h.kind, h'.id0.trans h.id0, h'.type.trans h.type, fun e he => ?_⟩
  rcases List.mem_append.1 he with he | he
  · exact h.effects e he
  · rcases h'.effects e he with hord | herase
    · have hoff : c'.offset = c.offset := by rw [offset, offset, h.id0]
      refine .inl ?_
      cases e <;> simp_all [Effect.ordinary]
    · exact .inr herase

theorem wp_adoptPeer (msgType : MsgType) (fromId : Nat) {P : Unit → Connection → List Effect → Prop}
    {c : Connection} :
    wp (adoptPeer msgType fromId) P c ↔
      match msgType with
      | .simpleFileData | .complexFileData =>
        P () { c with status := (c.status.testAndReset inRecvWaitAckQueueBit).2 }
          (if c.has inRecvWaitAckQueueBit then [.eraseWaitAck c.labelField fromId] else [])
      | .simpleFileAck | .complexFileAck | .complexFileSack => P () { c with id1 := fromId } []
      | _ => P () c [] := by
  have hdata : wp (do
      let old ← testAndReset inRecvWaitAckQueueBit
      when (old = 1) do
        let c ← get
        emit (.eraseWaitAck c.labelField fromId)) P c ↔
      P () { c with status := (c.status.testAndReset inRecvWaitAckQueueBit).2 }
        (if c.has inRecvWaitAckQueueBit then [.eraseWaitAck c.labelField fromId] else []) := by
    rw [wp_bind, wp_testAndReset (by decide), wp_when]
    cases h4 : c.has inRecvWaitAckQueueBit <;> simp [labelField]
  cases msgType <;> first | exact hdata | exact Iff.rfl

theorem Local.adoptPeer (msgType : MsgType) (fromId : Nat) :
    Keeps Local (ConM.adoptPeer msgType fromId) := by
  intro c
  have hdata : Local c { c with status := (c.status.testAndReset inRecvWaitAckQueueBit).2 }
      (if c.has inRecvWaitAckQueueBit then [.eraseWaitAck c.labelField fromId] else []) := by
    refine ⟨rfl, rfl, by simp, fun e he => .inr ⟨c.labelField, fromId, ?_⟩⟩
    split at he
    · exact List.mem_singleton.1 he
    · cases he
  rw [wp_adoptPeer]
  cases msgType <;> first | exact hdata | exact ⟨rfl, rfl, rfl, by simp⟩

theorem Local.connectionDoNetworkData (inc now : Nat) (d : Datagram) (len : Int) :
    Keeps Local (ConM.connectionDoNetworkData inc now d len) := by
  intro c
  rw [ConM.connectionDoNetworkData, wp_bind, wp_when]
  split
  · refine wp_mono _ (Local.adoptPeer d.msgType d.fromId c) fun _ c₁ es₁ h => ?_
    exact h.trans (Own.doNetworkData inc now d.dtNote d.sendTime d.data len c₁).local
  · exact (Own.doNetworkData inc now d.dtNote d.sendTime d.data len c).local

end Resend.Udp
