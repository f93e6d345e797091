import Resend.Udp.Frames

/-!
# What a reader's handlers do

A reader's buffer, cursor and ack collector change only in its data handlers and in `Recver_ACK_Timer`;
a message is pushed only when a simple reader completes or by `Recver_Succ_Timer`. Everything else is
`Still`. `Life.reader_cases` says what the next step of a reader can be.
-/

namespace Resend.Udp
open Handler Connection ConM

/-- Nothing is received, pushed or acknowledged, and no success is announced. -/
structure Still (c c' : Connection) (es : List Effect) : Prop where
  kind : c'.kind = c.kind
  length : c'.transmitBufLength = c.transmitBufLength
  buf : c'.transmitBuf = c.transmitBuf
  left : c'.leftWindowCursor = c.leftWindowCursor
  count : c'.memcpyCount = c.memcpyCount
  collector : c'.ackInfoCollector = c.ackInfoCollector
  silent : ∀ d addr, Effect.kernelSend d addr ∈ es → d.msgType = .transReset
  noPush : ∀ data t, Effect.pushMsg data t ∉ es
  noTimer : ∀ p ∈ es.filterMap Life.armed, p.1 ≠ .recverSuccTimer

/-- Effects that a still handler may have. -/
def Effect.still : Effect → Bool
  | .kernelSend d _ => d.msgType = .transReset
  | .pushMsg .. => false
  | .addTimer _ t _ _ => t ≠ .recverSuccTimer
  | _ => true

namespace Still

theorem emit (c : Connection) {e : Effect} (he : e.still = true) : Still c c [e] := by
  refine ⟨rfl, rfl, rfl, rfl, rfl, rfl, fun d addr h => ?_, fun data t h => ?_, fun p hp => ?_⟩
  · rw [← List.mem_singleton.1 h] at he; simpa [Effect.still] using he
  · rw [← List.mem_singleton.1 h] at he; cases he
  · cases e <;> simp [Life.armed] at hp
    subst hp
    simpa [Effect.still] using he

theorem update {c c' : Connection} (h1 : c'.kind = c.kind)
    (h2 : c'.transmitBufLength = c.transmitBufLength) (h3 : c'.transmitBuf = c.transmitBuf)
    (h4 : c'.leftWindowCursor = c.leftWindowCursor) (h5 : c'.memcpyCount = c.memcpyCount)
    (h6 : c'.ackInfoCollector = c.ackInfoCollector) : Still c c' [] :=
  ⟨h1, h2, h3, h4, h5, h6, by simp, by simp, by simp⟩

theorem testAndSet (k : Nat) : Keeps Still (ConM.testAndSet k) :=
  keeps_modifyGet fun _ => update rfl rfl rfl rfl rfl rfl

theorem testAndReset (k : Nat) : Keeps Still (ConM.testAndReset k) :=
  keeps_modifyGet fun _ => update rfl rfl rfl rfl rfl rfl

end Still

theorem still : StopFrame Still where
  refl _ := .update rfl rfl rfl rfl rfl rfl
  trans h h' := by
    refine ⟨h'.kind.trans h.kind, h'.length.trans h.length, h'.buf.trans h.buf, h'.left.trans h.left,
      h'.count.trans h.count, h'.collector.trans h.collector, fun d addr hd =>
        ?_, fun data t hp => ?_, fun p hp => ?_⟩
    · rcases List.mem_append.1 hd with hd | hd
      exacts [h.silent d addr hd, h'.silent d addr hd]
    · rcases List.mem_append.1 hp with hp | hp
      exacts [h.noPush data t hp, h'.noPush data t hp]
    · rw [List.filterMap_append] at hp
      rcases List.mem_append.1 hp with hp | hp
      exacts [h.noTimer p hp, h'.noTimer p hp]
  times h := by
    obtain ⟨_, _, _, _, _, _, rfl⟩ := h
    exact .update rfl rfl rfl rfl rfl rfl
  set _ _ := Still.testAndSet _
  reset _ _ := Still.testAndReset _
  bookkeeping {e c} he := Still.emit c (by cases e <;> simp_all [Effect.bookkeeping, Effect.still])
  code _ := keeps_modify fun _ => .update rfl rfl rfl rfl rfl rfl
  setClean := Still.testAndSet _
  setStop := Still.testAndSet _
  suspend c := Still.emit c rfl
  suspendTimer _ c := Still.emit c rfl
  resetDatagram hd := Still.emit _ (by simp [Effect.still, hd])

namespace Still
variable {c : Connection}

theorem freeConnection : Keeps Still ConM.freeConnection :=
  still.bind still.refl fun _ => still.bind (still.when <|
    still.bind (testAndReset _) fun _ => still.when <|
    still.bind (keeps_modify fun _ => update rfl rfl rfl rfl rfl rfl) fun _ =>
    still.bind still.get fun _ => keeps_emit fun c => emit c rfl) fun _ =>
      keeps_emit fun c => emit c rfl

theorem readerForceReset : Keeps Still ConM.readerForceReset := by
  refine still.bind (testAndSet _) fun _ => still.when fun c => ?_
  rw [wp_readerDone]
  refine ⟨rfl, rfl, rfl, rfl, rfl, rfl, ?_, ?_, ?_⟩ <;>
    (unfold readerDone; cases c.recvFailedHandle <;> cases c.recvBufType <;>
      split <;> simp [Life.armed])

theorem readerSuspendTimeOut : Keeps Still ConM.readerSuspendTimeOut :=
  still.bind readerForceReset fun _ => still.bind still.get fun _ =>
    still.bind (keeps_emit fun c => emit c rfl) fun _ => freeConnection

theorem doTimeOut (hr : c.kind.isWriter = false) {t : TimerType} (rc : Nat)
    (ht : c.kind = .complexReader → t ≠ .recverSuccTimer ∧ t ≠ .recverAckTimer) :
    wp (ConM.doTimeOut t rc) (fun _ c' es => Still c c' es) c := by
  rw [ConM.doTimeOut, wp_bind, wp_get]
  cases hk : c.kind with
  | simpleWriter | complexWriter => rw [hk] at hr; cases hr
  | simpleReader =>
    cases t
    case forceResetTimer => exact readerForceReset c
    case recverCheckDeadTimer => exact still.readerCheckDead _ c
    case connectionSuspendTimer => exact readerSuspendTimeOut c
    all_goals exact still.refl c
  | complexReader =>
    have ht := ht hk
    cases t
    case forceResetTimer => exact readerForceReset c
    case recverCheckDeadTimer => exact still.readerCheckDead _ c
    case connectionSuspendTimer => exact readerSuspendTimeOut c
    case senderKeepingTimer => exact still.refl c
    case recverSuccTimer => exact absurd rfl ht.1
    case recverAckTimer => exact absurd rfl ht.2

end Still

namespace Life
variable {r r' : Life}

/-- The same connection and history, with some of the timers. -/
def Thins (r r' : Life) : Prop :=
  r'.con = r.con ∧ r'.history = r.history ∧ ∀ p ∈ r'.timers, p ∈ r.timers

/-- The next step of a reader: data, one of the two timers of a complex transfer, or nothing that
matters. -/
theorem reader_cases (hr : r.con.kind.isWriter = false) {act : Act}
    (hact : ∀ clock, act ≠ .sender clock) (hs : r.step act = some r') :
    (∃ inc now d len, act = .networkData inc now d len ∧
      r' = r.ran (connectionDoNetworkData inc now d len)) ∨
    (∃ r₀ t rc, Thins r r₀ ∧ (t, rc) ∈ r.timers ∧ r.con.kind = .complexReader ∧
      (t = .recverSuccTimer ∨ t = .recverAckTimer) ∧ r' = r₀.ran (doTimeOut t rc)) ∨
    (∃ r₀, Thins r r₀ ∧ (r' = r₀ ∨
      ∃ x, r' = r₀.ran x ∧ wp x (fun _ c' es => Still r.con c' es) r.con)) := by
  have hself : Thins r r := ⟨rfl, rfl, fun _ => id⟩
  cases act with
  | networkData inc now d len =>
    simp only [step] at hs
    split at hs <;> cases hs
    exact .inl ⟨inc, now, d, len, rfl, rfl⟩
  | reset msgType =>
    simp only [step] at hs
    split at hs <;> cases hs
    exact .inr (.inr ⟨r, hself, .inr ⟨_, rfl, still.connectionDoConnectionReset msgType _⟩⟩)
  | stop =>
    simp only [step] at hs
    split at hs <;> cases hs
    exact .inr (.inr ⟨r, hself, .inr ⟨_, rfl, still.connectionDoConnectionStop _⟩⟩)
  | timeOut j =>
    simp only [step] at hs
    split at hs
    · cases hs
    rename_i t rc ht
    have hthin : Thins r { r with timers := r.timers.eraseIdx j } :=
      ⟨rfl, rfl, fun p hp => List.mem_of_mem_eraseIdx hp⟩
    split at hs <;> cases hs
    · exact .inr (.inr ⟨_, hthin, .inl rfl⟩)
    by_cases hc : r.con.kind = .complexReader ∧ (t = .recverSuccTimer ∨ t = .recverAckTimer)
    · exact .inr (.inl ⟨_, t, rc, hthin, List.mem_of_getElem? ht, hc.1, hc.2, rfl⟩)
    · refine .inr (.inr ⟨_, hthin, .inr ⟨_, rfl, Still.doTimeOut hr rc fun hk => ?_⟩⟩)
      exact ⟨fun h => hc ⟨hk, .inl h⟩, fun h => hc ⟨hk, .inr h⟩⟩
  | sender clock => exact absurd rfl (hact clock)

end Life

/-! ### The function table of readers -/

section dispatch
variable {c : Connection} {Q : Unit → Connection → List Effect → Prop}

theorem wp_doTimeOut_complexReader (hk : c.kind = .complexReader) (t : TimerType) (rc : Nat) :
    wp (doTimeOut t rc) Q c ↔ wp (ComplexConnection.readerConnectionDoTimeOut t rc) Q c := by
  rw [doTimeOut, wp_bind, wp_get, hk]
  rfl

theorem wp_doNetworkData_simpleReader (hk : c.kind = .simpleReader) (inc now seq sendTime : Nat)
    (recvData : List UInt8) (recvDataLength : Int) :
    wp (doNetworkData inc now seq sendTime recvData recvDataLength) Q c ↔
      wp (SimpleConnection.readerConnectionDoNetworkData seq sendTime recvData recvDataLength) Q c := by
  rw [doNetworkData, wp_bind, wp_get, hk]
  rfl

theorem wp_doNetworkData_complexReader (hk : c.kind = .complexReader) (inc now seq sendTime : Nat)
    (recvData : List UInt8) (recvDataLength : Int) :
    wp (doNetworkData inc now seq sendTime recvData recvDataLength) Q c ↔
      wp (ComplexConnection.readerConnectionDoNetworkData seq sendTime recvData recvDataLength) Q
        c := by
  rw [doNetworkData, wp_bind, wp_get, hk]
  rfl

end dispatch

end Resend.Udp
