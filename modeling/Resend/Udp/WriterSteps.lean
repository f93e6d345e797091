import Resend.Udp.Frames

/-!
# What a writer's handlers do

Most handler runs of a writer are `Quiet`; the others are `Ended`: the final ack, a reset, a rejection,
a forced stop and the seventh timeout. `Sending` is a writer to which none of them has happened, and
`Sending.step_cases` says what its next step can be.
-/

namespace Resend.Udp
open Handler Connection ConM

/-- An effect that neither ends the connection nor calls back. -/
def Effect.quiet : Effect → Bool
  | .kernelSend .. | .addToSendQueue _ | .eraseWaitAck .. => true
  | .addTimer _ t _ _ => t ≠ .connectionSuspendTimer
  | _ => false

/-- What a writer holds for its callbacks. -/
structure SameSource (c c' : Connection) : Prop where
  kind : c'.kind = c.kind
  node : c'.transMessageNode = c.transMessageNode
  buf : c'.transmitBuf = c.transmitBuf
  length : c'.transmitBufLength = c.transmitBufLength
  handle : c'.sendedHandle = c.sendedHandle

theorem SameSource.refl (c : Connection) : SameSource c c := ⟨rfl, rfl, rfl, rfl, rfl⟩

theorem SameSource.trans {c c' c'' : Connection} (h : SameSource c c') (h' : SameSource c' c'') :
    SameSource c c'' :=
  ⟨h'.kind.trans h.kind, h'.node.trans h.node, h'.buf.trans h.buf, h'.length.trans h.length,
    h'.handle.trans h.handle⟩

/-- A handler run that is no terminal event. -/
structure Quiet (c c' : Connection) (es : List Effect) : Prop where
  source : SameSource c c'
  code : c'.transResultCode = c.transResultCode
  bits : ∀ k < 4, c'.has k = c.has k
  effects : ∀ e ∈ es, e.quiet = true

theorem quiet_testAndSet {k : Nat} (hk : 4 ≤ k) (hk' : k < 64) : Keeps Quiet (ConM.testAndSet k) := by
  refine keeps_modifyGet fun c => ⟨⟨rfl, rfl, rfl, rfl, rfl⟩, rfl, fun j hj => ?_, by simp⟩
  have : j ≠ k := by omega
  simp [hk', this]

theorem quiet_testAndReset {k : Nat} (hk : 4 ≤ k) (hk' : k < 64) :
    Keeps Quiet (ConM.testAndReset k) := by
  refine keeps_modifyGet fun c => ⟨⟨rfl, rfl, rfl, rfl, rfl⟩, rfl, fun j hj => ?_, by simp⟩
  have : j ≠ k := by omega
  simp [hk', this]

theorem Quiet.trans {c c' c'' : Connection} {es es' : List Effect} (h : Quiet c c' es)
    (h' : Quiet c' c'' es') :
    Quiet c c'' (es ++ es') := by
  refine ⟨h.source.trans h'.source, h'.code.trans h.code,
    fun k hk => (h'.bits k hk).trans (h.bits k hk), ?_⟩
  intro e he
  rcases List.mem_append.1 he with he | he
  exacts [h.effects e he, h'.effects e he]

theorem Quiet.times {c c' : Connection} (h : SameButTimes c c') : Quiet c c' [] := by
  obtain ⟨_, _, _, _, _, _, rfl⟩ := h
  exact ⟨⟨rfl, rfl, rfl, rfl, rfl⟩, rfl, fun _ _ => rfl, by simp⟩

theorem Quiet.bookkeeping {c : Connection} {e : Effect} (he : e.bookkeeping c = true) :
    Quiet c c [e] := by
  refine ⟨.refl c, rfl, fun _ _ => rfl, ?_⟩
  simp only [List.mem_singleton, forall_eq]
  cases e <;> simp_all [Effect.bookkeeping, Effect.quiet]

theorem quiet : ConFrame Quiet where
  refl c := ⟨.refl c, rfl, fun _ _ => rfl, by simp⟩
  trans := .trans
  times := .times
  set hk hk' := quiet_testAndSet hk (by omega)
  reset hk hk' := quiet_testAndReset hk (by omega)
  bookkeeping := .bookkeeping

namespace Quiet

theorem window {f : Connection → Connection}
    (h : ∀ c, ∃ w, f c = { c with toComplexWriterFields := w }) :
    Keeps Quiet (Handler.modify f : ConM Unit) := by
  refine keeps_modify fun c => ?_
  obtain ⟨w, hw⟩ := h c
  rw [hw]
  exact ⟨⟨rfl, rfl, rfl, rfl, rfl⟩, rfl, fun _ _ => rfl, by simp⟩

theorem erase (c : Connection) (label id : Nat) : Quiet c c [.eraseWaitAck label id] :=
  ⟨.refl c, rfl, fun _ _ => rfl, by simp [Effect.quiet]⟩

theorem sendDatagram (t : MsgType) (sendTime dtNote : Nat) (data : List UInt8) :
    Keeps Quiet (ConM.sendDatagram t sendTime dtNote data) :=
  quiet.bind quiet.get fun _ => keeps_emit fun c =>
    ⟨.refl c, rfl, fun _ _ => rfl, by simp [Effect.quiet]⟩

theorem processSenderMsgBit : Keeps Quiet ComplexConnection.processSenderMsgBit :=
  quiet.bind (quiet_testAndReset (by decide) (by decide)) fun _ =>
  quiet.bind (quiet.when (window fun _ => ⟨_, rfl⟩)) fun _ =>
  quiet.bind (quiet_testAndReset (by decide) (by decide)) fun _ =>
  quiet.bind (quiet.when (quiet.bind (window fun _ => ⟨_, rfl⟩)
    fun _ => quiet.bind (quiet_testAndSet (by decide) (by decide)) fun _ => quiet.pure _)) fun _ =>
  quiet.bind (quiet_testAndReset (by decide) (by decide)) fun _ =>
  quiet.when (window fun _ => ⟨_, rfl⟩)

theorem buildAndSend (now : Nat) : Keeps Quiet (ComplexConnection.buildAndSend now) :=
  quiet.bind quiet.get fun _ =>
  quiet.bind (keeps_ite (quiet.bind (quiet.set (by decide) (by decide)) fun _ =>
    quiet.pure _) (quiet.pure _)) fun _ => quiet.bind (sendDatagram _ _ _ _) fun _ =>
      quiet.increaseRunningCount

theorem sendLoop (clock : Nat → Nat) (n : Nat) : Keeps Quiet (ComplexConnection.sendLoop clock n) := by
  induction n with
  | zero =>
    exact quiet.bind quiet.get fun _ => keeps_ite
      (quiet.bind processSenderMsgBit fun _ => quiet.rebackSender) quiet.armKeepingTimer
  | succ n ih =>
    exact quiet.bind quiet.get fun _ => keeps_ite (quiet.bind processSenderMsgBit fun _ =>
      quiet.bind (buildAndSend _) fun _ => quiet.bind (window fun _ => ⟨_, rfl⟩) fun _ =>
        ih) quiet.armKeepingTimer

theorem writerCongestion :
    Keeps Quiet (Handler.modify ComplexConnection.writerCongestion : ConM Unit) :=
  window fun _ => ⟨_, rfl⟩

theorem recordSack (seq : Nat) : Keeps Quiet (ComplexConnection.recordSack seq) :=
  quiet.bind quiet.get fun _ => keeps_ite
    (quiet.bind (window fun _ => ⟨_, rfl⟩) fun _ =>
      keeps_ite (quiet_testAndReset (by decide) (by decide)) (quiet.pure _))
    (quiet.bind (window fun _ => ⟨_, rfl⟩) fun _ => quiet.pure _)

theorem nextWindow (inc : Nat) :
    Keeps Quiet (Handler.modify (ComplexConnection.nextWindow inc) : ConM Unit) := by
  refine window fun c => ?_
  unfold ComplexConnection.nextWindow
  split
  exacts [⟨_, rfl⟩, ⟨_, rfl⟩]

theorem adjustWindow (inc : Nat) (isNewSack : Int) :
    Keeps Quiet (ComplexConnection.adjustWindow inc isNewSack) :=
  quiet.bind quiet.get fun _ => keeps_ite
    (quiet.bind writerCongestion fun _ =>
      quiet.bind (quiet_testAndSet (by decide) (by decide)) fun _ => quiet.pure _)
    (quiet.bind (keeps_ite
      (quiet.bind (window fun _ => ⟨_, rfl⟩) fun _ =>
        quiet.bind (quiet_testAndSet (by decide) (by decide)) fun _ => quiet.pure _)
      (nextWindow inc)) fun _ =>
    quiet.bind quiet.refl fun _ => quiet.when (window fun _ => ⟨_, rfl⟩))

end Quiet

/-! ### Terminal events -/

/-- A handler run that is a terminal event: the code is written and, the first time, the slot is
suspended. -/
structure Ended (code : TransResultCode) (c c' : Connection) (es : List Effect) : Prop where
  source : SameSource c c'
  code : c'.transResultCode = code
  suc : c'.has transSucBit = c.has transSucBit
  type : c'.has connectionTypeBit = c.has connectionTypeBit
  clean : c'.has bufCleanBit = true
  slot : c.has bufCleanBit = false → ∀ slot, es.foldl Life.slotAfter slot = .suspended
  effects : ∀ e ∈ es, e.quiet = true ∨ (∃ off, e = .suspendConnectionID off) ∨
    ∃ due rc off, e = .addTimer due .connectionSuspendTimer rc off

theorem foldl_slotAfter_quiet {es : List Effect} (h : ∀ e ∈ es, e.quiet = true) (slot : Slot) :
    es.foldl Life.slotAfter slot = slot := by
  induction es with
  | nil => rfl
  | cons e es ih =>
    have he := h e List.mem_cons_self
    have hs : Life.slotAfter slot e = slot := by
      cases e <;> first | rfl | simp [Effect.quiet] at he
    rw [List.foldl_cons, hs]
    exact ih fun e' he' => h e' (List.mem_cons_of_mem _ he')

namespace Ended
variable {code : TransResultCode} {c c' c'' : Connection} {es es' : List Effect}

theorem transSuspend (code : TransResultCode) (c : Connection) :
    wp (do setTransResultCode code; ConM.transSuspend) (fun _ c' es => Ended code c c' es) c := by
  simp only [wp_bind, wp_setTransResultCode, wp_transSuspend]
  split <;> rename_i hb
  · refine ⟨⟨rfl, rfl, rfl, rfl, rfl⟩, rfl, by simp, by simp, by simp, fun h => ?_, by simp⟩
    rw [hb] at h; cases h
  · exact ⟨⟨rfl, rfl, rfl, rfl, rfl⟩, rfl, by simp, by simp, by simp,
      fun _ _ => rfl, by simp [Effect.quiet]⟩

theorem afterQuiet (h : Quiet c c' es) (h' : Ended code c' c'' es') : Ended code c c'' (es ++ es') := by
  refine ⟨h.source.trans h'.source, h'.code, h'.suc.trans (h.bits _ (by decide)),
    h'.type.trans (h.bits _ (by decide)), h'.clean, fun hb slot => ?_, fun e he => ?_⟩
  · rw [List.foldl_append]
    exact h'.slot ((h.bits _ (by decide)).trans hb) _
  · rcases List.mem_append.1 he with he | he
    exacts [.inl (h.effects e he), h'.effects e he]

theorem thenQuiet (h : Ended code c c' es) (h' : Quiet c' c'' es') : Ended code c c'' (es ++ es') := by
  refine ⟨h.source.trans h'.source, h'.code.trans h.code, (h'.bits _ (by decide)).trans h.suc,
    (h'.bits _ (by decide)).trans h.type, (h'.bits _ (by decide)).trans h.clean,
    fun hb slot => ?_, fun e he => ?_⟩
  · rw [List.foldl_append, h.slot hb]
    exact foldl_slotAfter_quiet h'.effects _
  · rcases List.mem_append.1 he with he | he
    exacts [h.effects e he, .inl (h'.effects e he)]

/-- The force-stop bit is no part of it. -/
theorem of_forceStop (h : Ended code { c with status := (c.status.testAndSet forceStopBit).2 } c' es) :
    Ended code c c' es :=
  ⟨⟨h.source.kind, h.source.node, h.source.buf, h.source.length, h.source.handle⟩, h.code,
    by simpa using h.suc, by simpa using h.type, h.clean,
    fun hb => h.slot (by simpa using hb), h.effects⟩

end Ended

/-- The ack that completes a transfer. -/
def Connection.finalAck (c : Connection) (seq : Nat) : Prop :=
  c.leftWindowCursor ≤ seq ∧ seq > sub32 c.transmitBufLength 1

/-- The expiry of the keeping timer that gives up. -/
def Connection.seventhTimeOut (c : Connection) (t : TimerType) (runningCount : Nat) : Prop :=
  t = .senderKeepingTimer ∧ c.runningCount = runningCount ∧ c.tryTime + 1 = sendTryTime

instance (c : Connection) (seq : Nat) : Decidable (c.finalAck seq) :=
  inferInstanceAs (Decidable (_ ∧ _))

instance (c : Connection) (t : TimerType) (rc : Nat) : Decidable (c.seventhTimeOut t rc) :=
  inferInstanceAs (Decidable (_ ∧ _ ∧ _))

section cases
variable {c : Connection}

theorem doSend_quiet (hstop : c.has forceStopBit = false) (clock : Nat → Nat) :
    wp (doSend clock) (fun _ c' es => Quiet c c' es) c := by
  have hstop' : ¬ (if c.has forceStopBit then (1 : Int) else 0) = 1 := by simp [hstop]
  have hsimple : wp (SimpleConnection.writerConnectionDoSend (clock 0))
      (fun _ c' es => Quiet c c' es) c := by
    rw [SimpleConnection.writerConnectionDoSend, wp_bind, wp_bitTest (by decide), wp_ite, if_neg hstop']
    refine quiet.bind quiet.get (fun _ => quiet.when ?_) c
    exact quiet.bind (keeps_ite (quiet.bind (quiet_testAndSet (by decide) (by decide)) fun _ =>
      quiet.pure _) (quiet.pure _)) fun _ => quiet.bind (Quiet.sendDatagram _ _ _ _) fun _ =>
      quiet.bind quiet.increaseRunningCount fun _ => quiet.bind quiet.get fun _ =>
      quiet.addToTimerQueue (by decide)
  have hcomplex : wp (ComplexConnection.writerConnectionDoSend clock)
      (fun _ c' es => Quiet c c' es) c := by
    rw [ComplexConnection.writerConnectionDoSend, wp_bind,
      wp_bitTest (by decide), wp_ite, if_neg hstop']
    exact quiet.bind Quiet.processSenderMsgBit (fun _ => Quiet.sendLoop _ _) c
  rw [doSend, wp_bind, wp_get]
  cases c.kind
  exacts [hsimple, hcomplex, quiet.refl c, quiet.refl c]

theorem connectionDoSender_quiet (hstop : c.has forceStopBit = false) (clock : Nat → Nat) :
    wp (connectionDoSender clock) (fun _ c' es => Quiet c c' es) c := by
  have h1 := quiet_testAndReset (k := rebackSenderBit) (by decide) (by decide) c
  have hrest : Keeps Quiet (do
      let _ ← testAndReset inSenderBit
      let back ← testAndReset rebackSenderBit
      when (back = 1) addToSenderQueue) :=
    quiet.bind (quiet_testAndReset (by decide) (by decide)) fun _ =>
      quiet.bind (quiet_testAndReset (by decide) (by decide)) fun _ => quiet.when quiet.addToSenderQueue
  rw [ConM.connectionDoSender, wp_bind]
  refine wp_mono _ h1 fun _ c₁ es hq => ?_
  rw [wp_bind]
  refine wp_mono _ (doSend_quiet ((hq.bits _ (by decide)).trans hstop) clock) fun _ c₂ es' hq' => ?_
  refine wp_mono _ (hrest c₂) fun _ c₃ es'' hq'' => ?_
  exact hq.trans (hq'.trans hq'')

/-- What the two ack handlers have in common: `rest` runs for an accepted ack that is not final. -/
theorem ack_cases {rest : ConM Unit} (hrest : Keeps Quiet rest) (seq : Nat) :
    wp (do
      Handler.modify fun c => { c with tryTime := 0 }
      let res ← setConnectionLeftWindowCursor seq
      Handler.when (¬ res = -1) do
        increaseRunningCount
        let c ← Handler.get
        if seq > sub32 c.transmitBufLength 1 then
          setTransResultCode .successfully
          ConM.transSuspend
        else rest)
      (fun _ c' es => if c.finalAck seq then Ended .successfully c c' es else Quiet c c' es) c := by
  have h0 : Keeps Quiet (Handler.modify fun c => { c with tryTime := 0 } : ConM Unit) :=
    quiet.setTryTime fun _ => 0
  simp only [wp_bind, wp_modify, wp_setConnectionLeftWindowCursor]
  split <;> rename_i hle
  · rw [wp_when, if_pos (by decide)]
    have h1 : Quiet c
        { c with tryTime := 0, leftWindowCursor := seq, runningCount := c.runningCount + 1 } [] :=
      ⟨⟨rfl, rfl, rfl, rfl, rfl⟩, rfl, fun _ _ => rfl, by simp⟩
    simp only [wp_bind, wp_increaseRunningCount, wp_get, wp_ite]
    split <;> rename_i hfin
    · have hf : c.finalAck seq := ⟨hle, hfin⟩
      simp only [if_pos hf]
      exact Ended.afterQuiet h1 (Ended.transSuspend _ _)
    · have hf : ¬ c.finalAck seq := fun h => hfin h.2
      simp only [if_neg hf]
      exact quiet.trans h1 (hrest _)
  · rw [wp_when, if_neg (by simp), if_neg fun h => hle h.1]
    exact h0 c

theorem doNetworkData_cases (hw : c.kind.isWriter = true) (inc now seq sendTime : Nat)
    (data : List UInt8) (len : Int) :
    wp (doNetworkData inc now seq sendTime data len)
      (fun _ c' es => if c.finalAck seq then Ended .successfully c c' es else Quiet c c' es) c := by
  have hsimple : Keeps Quiet (do setConnectionRTO now sendTime; ConM.addToSenderQueue) :=
    quiet.bind (quiet.setConnectionRTO _ _) fun _ => quiet.addToSenderQueue
  have hcomplex : Keeps Quiet (do
      let locked ← ConM.testAndSet doingAckBit
      Handler.when (¬ locked = 1) do
        setConnectionRTO now sendTime
        let isNewSack ← ComplexConnection.recordSack seq
        ComplexConnection.adjustWindow inc isNewSack
        let _ ← ConM.testAndReset doingAckBit
        ConM.addToSenderQueue) :=
    quiet.bind (quiet_testAndSet (by decide) (by decide)) fun _ =>
    quiet.when <| quiet.bind (quiet.setConnectionRTO _ _) fun _ =>
    quiet.bind (Quiet.recordSack _) fun _ => quiet.bind (Quiet.adjustWindow _ _) fun _ =>
    quiet.bind (quiet_testAndReset (by decide) (by decide)) fun _ => quiet.addToSenderQueue
  rw [doNetworkData, wp_bind, wp_get]
  cases hk : c.kind with
  | simpleWriter => exact ack_cases hsimple seq
  | complexWriter => exact ack_cases hcomplex seq
  | simpleReader | complexReader => rw [hk] at hw; cases hw

theorem adoptPeer_left (msgType : MsgType) (fromId : Nat) :
    wp (adoptPeer msgType fromId) (fun _ c' _ => c'.leftWindowCursor = c.leftWindowCursor) c := by
  cases msgType <;> simp [adoptPeer, wp_testAndReset]

theorem connectionDoNetworkData_cases (hw : c.kind.isWriter = true) (inc now : Nat) (d : Datagram)
    (len : Int) :
    wp (connectionDoNetworkData inc now d len)
      (fun _ c' es => if c.finalAck d.dtNote then Ended .successfully c c' es
        else Quiet c c' es) c := by
  have hpeer : wp (Handler.when (d.dtNote = packetMaxDataLength) (adoptPeer d.msgType d.fromId))
      (fun _ c' es => Quiet c c' es ∧ c'.leftWindowCursor = c.leftWindowCursor) c := by
    rw [wp_when]
    split
    · exact ⟨quiet.adoptPeer Quiet.erase _ _ c, adoptPeer_left _ _⟩
    · exact ⟨quiet.refl c, rfl⟩
  rw [connectionDoNetworkData, wp_bind]
  refine wp_mono _ hpeer fun _ c₁ es₁ ⟨hq, hl⟩ => ?_
  refine wp_mono _ (doNetworkData_cases (hq.source.kind ▸ hw) inc now d.dtNote d.sendTime d.data len)
    fun _ c₂ es₂ h => ?_
  have hfin : c₁.finalAck d.dtNote ↔ c.finalAck d.dtNote := by
    rw [finalAck, finalAck, hl, hq.source.length]
  by_cases hf : c.finalAck d.dtNote
  · rw [if_pos (hfin.2 hf)] at h
    rw [if_pos hf]
    exact Ended.afterQuiet hq h
  · rw [if_neg (mt hfin.1 hf)] at h
    rw [if_neg hf]
    exact quiet.trans hq h

theorem stopTransfer_ended (htype : c.has connectionTypeBit = true) (code : TransResultCode) :
    wp (stopTransfer code) (fun _ c' es => Ended code c c' es) c := by
  have := Ended.transSuspend code c
  rw [wp_bind, wp_setTransResultCode] at this
  rw [stopTransfer, wp_bind, wp_setTransResultCode, wp_bind, wp_bitTest (by decide), wp_ite,
    if_pos (by simp only [ne_eq]; rw [if_pos htype]; decide)]
  exact this

theorem connectionDoConnectionReset_ended (htype : c.has connectionTypeBit = true)
    (hstop : c.has forceStopBit = false) (msgType : MsgType) :
    wp (connectionDoConnectionReset msgType)
      (fun _ c' es => Ended (if msgType = .transReset then .reset else .rejected) c c' es) c := by
  rw [connectionDoConnectionReset, wp_bind, wp_testAndSet (by decide), wp_when,
    if_pos (by rw [hstop]; rfl)]
  exact wp_mono _ (stopTransfer_ended (by simpa using htype) _) fun _ _ _ h => h.of_forceStop

theorem connectionDoConnectionStop_ended (htype : c.has connectionTypeBit = true)
    (hstop : c.has forceStopBit = false) :
    wp connectionDoConnectionStop (fun _ c' es => Ended .forceStop c c' es) c := by
  rw [connectionDoConnectionStop, wp_bind, wp_testAndSet (by decide), wp_when,
    if_pos (by rw [hstop]; rfl), wp_bind]
  refine wp_mono _ (stopTransfer_ended (by simpa using htype) _) fun _ c' es h => ?_
  exact wp_mono _ (Quiet.sendDatagram _ _ _ _ c') fun _ _ _ hq => h.of_forceStop.thenQuiet hq

theorem keeping_cases {rest : ConM Unit} (hrest : Keeps Quiet rest) (runningCount : Nat) :
    wp (do
      let c ← Handler.get
      Handler.when (c.runningCount = runningCount) do
        Handler.modify fun c => { c with tryTime := c.tryTime + 1 }
        let c ← Handler.get
        if c.tryTime = sendTryTime then
          setTransResultCode .timeOut
          ConM.transSuspend
        else rest)
      (fun _ c' es => if c.seventhTimeOut .senderKeepingTimer runningCount then Ended .timeOut c c' es
        else Quiet c c' es) c := by
  have h1 : Quiet c { c with tryTime := c.tryTime + 1 } [] :=
    ⟨⟨rfl, rfl, rfl, rfl, rfl⟩, rfl, fun _ _ => rfl, by simp⟩
  simp only [wp_bind, wp_get, wp_when, wp_modify, wp_ite]
  split <;> rename_i hrc
  · split <;> rename_i htry
    · have hf : c.seventhTimeOut .senderKeepingTimer runningCount := ⟨rfl, hrc, htry⟩
      simp only [if_pos hf]
      exact Ended.afterQuiet h1 (Ended.transSuspend _ _)
    · have hf : ¬ c.seventhTimeOut .senderKeepingTimer runningCount := fun h => htry h.2.2
      simp only [if_neg hf]
      exact quiet.trans h1 (hrest _)
  · rw [if_neg fun h => hrc h.2.1]
    exact quiet.refl c

theorem doTimeOut_cases (hw : c.kind.isWriter = true) {t : TimerType}
    (ht : t ≠ .connectionSuspendTimer) (runningCount : Nat) :
    wp (doTimeOut t runningCount)
      (fun _ c' es => if c.seventhTimeOut t runningCount then Ended .timeOut c c' es
        else Quiet c c' es) c := by
  have hsimple : Keeps Quiet (do setConnectionRTODouble; ConM.addToSenderQueue) :=
    quiet.bind quiet.setConnectionRTODouble fun _ => quiet.addToSenderQueue
  have hcomplex : Keeps Quiet (do
      setConnectionRTODouble
      let locked ← ConM.testAndSet doingAckBit
      Handler.when (locked = 0) do
        Handler.modify ComplexConnection.writerCongestion
        let _ ← ConM.testAndReset doingAckBit
      let _ ← ConM.testAndSet hasTimeOutBit
      ConM.addToSenderQueue) :=
    quiet.bind quiet.setConnectionRTODouble fun _ =>
    quiet.bind (quiet_testAndSet (by decide) (by decide)) fun _ =>
    quiet.bind (quiet.when (quiet.bind Quiet.writerCongestion fun _ =>
      quiet.bind (quiet_testAndReset (by decide) (by decide)) fun _ => quiet.pure _)) fun _ =>
    quiet.bind (quiet_testAndSet (by decide) (by decide)) fun _ => quiet.addToSenderQueue
  have hother : t ≠ .senderKeepingTimer → ¬ c.seventhTimeOut t runningCount := fun h h' => h h'.1
  rw [doTimeOut, wp_bind, wp_get]
  cases hk : c.kind with
  | simpleWriter =>
    cases t with
    | senderKeepingTimer => exact keeping_cases hsimple runningCount
    | connectionSuspendTimer => exact absurd rfl ht
    | _ => simp only [if_neg (hother (by decide))]; exact quiet.refl c
  | complexWriter =>
    cases t with
    | senderKeepingTimer => exact keeping_cases hcomplex runningCount
    | connectionSuspendTimer => exact absurd rfl ht
    | _ => simp only [if_neg (hother (by decide))]; exact quiet.refl c
  | simpleReader | complexReader => rw [hk] at hw; cases hw

/-- The suspend timer of a writer that has not been cleaned up: all callbacks, the slot, the memory. -/
theorem doTimeOut_suspend (hw : c.kind.isWriter = true) (htype : c.has connectionTypeBit = true)
    (hsuc : c.has transSucBit = false) (runningCount : Nat) :
    wp (doTimeOut .connectionSuspendTimer runningCount)
      (fun _ _ es => es = writerDone c ++ [.releaseConnectionID c.offset, .freeConnection]) c := by
  have key : wp writerSuspendTimeOut
      (fun _ _ es => es = writerDone c ++ [.releaseConnectionID c.offset, .freeConnection]) c := by
    rw [writerSuspendTimeOut, wp_bind, wp_testAndSet (by decide), wp_when,
      if_pos (by rw [hsuc]; rfl), wp_bind, wp_writerDone, wp_bind, wp_get, wp_bind, wp_emit,
      wp_freeConnection_writer (by simpa using htype)]
    rfl
  rw [doTimeOut, wp_bind, wp_get]
  cases hk : c.kind with
  | simpleWriter | complexWriter => exact key
  | simpleReader | complexReader => rw [hk] at hw; cases hw

end cases

/-! ### A writer that is sending -/

namespace Life

theorem slotAfter_live {slot : Slot} {e : Effect} (h : slotAfter slot e = .live) : slot = .live := by
  cases e <;> first | exact h | cases h

theorem foldl_slotAfter_live {es : List Effect} {slot : Slot} (h : es.foldl slotAfter slot = .live) :
    slot = .live := by
  induction es generalizing slot with
  | nil => exact h
  | cons e es ih => exact slotAfter_live (ih h)

theorem live_of_step {l l' : Life} {act : Act} (hs : l.step act = some l') (hl : l'.slot = .live) :
    l.slot = .live := by
  cases act <;> simp only [step] at hs <;> split at hs <;> try cases hs
  · rename_i h; exact h.1
  · assumption
  · assumption
  · split at hs <;> cases hs
    · exact hl
    · rw [slot_ran] at hl; exact foldl_slotAfter_live hl
  · split at hs <;> cases hs
    · assumption
    · exact hl

/-- No terminal event has happened to this writer. -/
structure Sending (l : Life) : Prop where
  live : l.slot = .live
  writer : l.con.kind.isWriter = true
  type : l.con.has connectionTypeBit = true
  suc : l.con.has transSucBit = false
  clean : l.con.has bufCleanBit = false
  stop : l.con.has forceStopBit = false
  timers : ∀ p ∈ l.timers, p.1 ≠ .connectionSuspendTimer

namespace Sending
variable {l l' : Life} {x : ConM Unit}

theorem armed_quiet {es : List Effect} (h : ∀ e ∈ es, e.quiet = true) {p : TimerType × Nat}
    (hp : p ∈ es.filterMap armed) : p.1 ≠ .connectionSuspendTimer := by
  obtain ⟨e, he, hp⟩ := List.mem_filterMap.1 hp
  have := h e he
  cases e <;> simp [armed] at hp
  subst hp
  simpa [Effect.quiet] using this

theorem ran (h : Sending l) (hx : wp x (fun _ c' es => Quiet l.con c' es) l.con) :
    Sending (l.ran x) := by
  refine ⟨?_, ?_, ?_, ?_, ?_, ?_, ?_⟩
  · rw [slot_ran]; exact (foldl_slotAfter_quiet hx.effects _).trans h.live
  · rw [con_ran]; exact hx.source.kind ▸ h.writer
  · rw [con_ran]; exact (hx.bits _ (by decide)).trans h.type
  · rw [con_ran]; exact (hx.bits _ (by decide)).trans h.suc
  · rw [con_ran]; exact (hx.bits _ (by decide)).trans h.clean
  · rw [con_ran]; exact (hx.bits _ (by decide)).trans h.stop
  · intro p hp
    rw [timers_ran] at hp
    rcases List.mem_append.1 hp with hp | hp
    exacts [h.timers p hp, armed_quiet hx.effects hp]

theorem ended (h : Sending l) {code : TransResultCode}
    (hx : wp x (fun _ c' es => Ended code l.con c' es) l.con) :
    (l.ran x).slot = .suspended := by
  rw [slot_ran]; exact hx.slot h.clean _

theorem eraseTimer (h : Sending l) (j : Nat) : Sending { l with timers := l.timers.eraseIdx j } :=
  ⟨h.live, h.writer, h.type, h.suc, h.clean, h.stop,
    fun p hp => h.timers p (List.mem_of_mem_eraseIdx hp)⟩

theorem dequeue (h : Sending l) (n : Nat) : Sending { l with queued := n } :=
  ⟨h.live, h.writer, h.type, h.suc, h.clean, h.stop, h.timers⟩

/-- The steps of a sending writer that do not end the transfer, each with what it runs. -/
theorem step_cases (h : Sending l) {act : Act} (hs : l.step act = some l') (hl : l'.slot = .live) :
    (∃ inc now d len, act = .networkData inc now d len ∧
      ¬ l.con.finalAck d.dtNote ∧ l.con.id0 = d.toId ∧
      l' = l.ran (connectionDoNetworkData inc now d len) ∧
      wp (connectionDoNetworkData inc now d len) (fun _ c' es => Quiet l.con c' es) l.con) ∨
    (∃ j t rc, act = .timeOut j ∧ l.timers[j]? = some (t, rc) ∧ ¬ l.con.seventhTimeOut t rc ∧
      l' = Life.ran { l with timers := l.timers.eraseIdx j } (doTimeOut t rc) ∧
      wp (doTimeOut t rc) (fun _ c' es => Quiet l.con c' es) l.con) ∨
    (∃ clock, act = .sender clock ∧ l.queued ≠ 0 ∧
      l' = Life.ran { l with queued := l.queued - 1 } (connectionDoSender clock) ∧
      wp (connectionDoSender clock) (fun _ c' es => Quiet l.con c' es) l.con) := by
  have hnot : ¬ l'.slot = .suspended := by rw [hl]; decide
  cases act with
  | networkData inc now d len =>
    simp only [step, h.live, true_and] at hs
    split at hs <;> cases hs
    have hx := connectionDoNetworkData_cases h.writer inc now d len
    by_cases hf : l.con.finalAck d.dtNote
    · simp only [if_pos hf] at hx
      exact absurd (h.ended hx) hnot
    · simp only [if_neg hf] at hx
      exact .inl ⟨inc, now, d, len, rfl, hf, ‹_›, rfl, hx⟩
  | reset msgType =>
    simp only [step, h.live, if_true, Option.some.injEq] at hs
    subst hs
    exact absurd (h.ended (connectionDoConnectionReset_ended h.type h.stop msgType)) hnot
  | stop =>
    simp only [step, h.live, if_true, Option.some.injEq] at hs
    subst hs
    exact absurd (h.ended (connectionDoConnectionStop_ended h.type h.stop)) hnot
  | timeOut j =>
    simp only [step] at hs
    split at hs
    · cases hs
    rename_i t rc ht
    rw [if_neg (by rw [h.live]; decide)] at hs
    cases hs
    have hx := doTimeOut_cases h.writer (h.timers _ (List.mem_of_getElem? ht)) rc
    by_cases hf : l.con.seventhTimeOut t rc
    · simp only [if_pos hf] at hx
      exact absurd ((h.eraseTimer j).ended hx) hnot
    · simp only [if_neg hf] at hx
      exact .inr (.inl ⟨j, t, rc, rfl, ht, hf, rfl, hx⟩)
  | sender clock =>
    simp only [step] at hs
    split at hs
    · cases hs
    rw [if_pos h.live] at hs
    cases hs
    exact .inr (.inr ⟨clock, rfl, ‹_›, rfl, connectionDoSender_quiet h.stop clock⟩)

theorem step (h : Sending l) {act : Act} (hs : l.step act = some l') (hl : l'.slot = .live) :
    Sending l' := by
  obtain ⟨_, _, _, _, -, -, -, rfl, hx⟩ | ⟨j, _, _, -, -, -, rfl, hx⟩ |
      ⟨_, -, -, rfl, hx⟩ := h.step_cases hs hl
  · exact h.ran hx
  · exact (h.eraseTimer j).ran hx
  · exact (h.dequeue _).ran hx

theorem start (a : SendArgs) (id0 id1 : Nat) : Sending (startSender a id0 id1) := by
  refine ran (l := ⟨newWriter a id0 id1, .live, [], 0, []⟩) ?_ (quiet.addToSenderQueue _)
  refine ⟨rfl, ?_, ?_, ?_, ?_, ?_, by simp⟩ <;>
    (simp only [newWriter]; split <;> simp [construct, ConnKind.isWriter])

end Sending

end Life

end Resend.Udp
