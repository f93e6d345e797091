import Resend.Lib.Machine
import Resend.Udp.SimpleConnection
import Resend.Udp.ComplexConnection

/-!
# The life of one connection

How connections come into being (`__start_sender`, `start_recver`), what each dispatcher of
`HDS_UDP_Connection.cpp` does once it has found its connection, and the machine in which one
connection runs all of them in any order. `Life` keeps the connection's own slot, its armed timers, its
entries in the sender queue and the effects of every step so far, the latest first.
-/

namespace Resend.Udp
open Handler Connection

namespace ConM

/-! ### Function tables -/

def doTimeOut (timerType : TimerType) (runningCount : Nat) : ConM Unit := do
  let c ← get
  match c.kind with
  | .simpleWriter => SimpleConnection.writerConnectionDoTimeOut timerType runningCount
  | .complexWriter => ComplexConnection.writerConnectionDoTimeOut timerType runningCount
  | .simpleReader => SimpleConnection.readerConnectionDoTimeOut timerType runningCount
  | .complexReader => ComplexConnection.readerConnectionDoTimeOut timerType runningCount

/-- `_do_network_data`; the message kind is not looked at. -/
def doNetworkData (inc now seq sendTime : Nat) (recvData : List UInt8) (recvDataLength : Int) :
    ConM Unit := do
  let c ← get
  match c.kind with
  | .simpleWriter => SimpleConnection.writerConnectionDoNetworkData now seq sendTime
  | .complexWriter => ComplexConnection.writerConnectionDoNetworkData inc now seq sendTime
  | .simpleReader => SimpleConnection.readerConnectionDoNetworkData seq sendTime recvData recvDataLength
  | .complexReader =>
    ComplexConnection.readerConnectionDoNetworkData seq sendTime recvData recvDataLength

/-- `_do_send`. Readers have no such field. -/
def doSend (clock : Nat → Nat) : ConM Unit := do
  let c ← get
  match c.kind with
  | .simpleWriter => SimpleConnection.writerConnectionDoSend (clock 0)
  | .complexWriter => ComplexConnection.writerConnectionDoSend clock
  | .simpleReader | .complexReader => pure ()

/-! ### Dispatchers -/

/-- The part of `connection_do_network_data` for sequence number 1452: a reader whose second packet
comes in stops waiting, a writer adopts the reader's id. -/
def adoptPeer (msgType : MsgType) (fromId : Nat) : ConM Unit :=
  match msgType with
  | .simpleFileData | .complexFileData => do
    let old ← testAndReset inRecvWaitAckQueueBit
    when (old = 1) do
      let c ← get
      emit (.eraseWaitAck c.labelField fromId)
  | .simpleFileAck | .complexFileAck | .complexFileSack => modify fun c => { c with id1 := fromId }
  | _ => pure ()

/-- `connection_do_network_data` for the connection it found. -/
def connectionDoNetworkData (inc now : Nat) (d : Datagram) (recvDataLength : Int) : ConM Unit := do
  when (d.dtNote = packetMaxDataLength) (adoptPeer d.msgType d.fromId)
  doNetworkData inc now d.dtNote d.sendTime d.data recvDataLength

/-- `connection_do_require_duplicate` for the connection it found: a reader that has only the first
packet of this sender acknowledges it again. -/
def connectionDoRequireDuplicate (complex : Bool) (d : Datagram) (remoteAddr : Nat) : ConM Unit := do
  let c ← get
  when (c.id1 = d.fromId ∧ c.labelField = d.toId ∧ c.leftWindowCursor = packetMaxDataLength ∧
      remoteAddr = c.remoteAddr) do
    sendDatagram (if complex then .complexFileAck else .simpleFileAck) d.sendTime packetMaxDataLength []

/-- What `connection_do_connection_reset` and `connection_do_connection_stop` do with the first
request. -/
def stopTransfer (code : TransResultCode) : ConM Unit := do
  setTransResultCode code
  let type ← bitTest connectionTypeBit
  if type ≠ 0 then transSuspend else addToTimerQueue resetReactionTime .forceResetTimer

def connectionDoConnectionReset (msgType : MsgType) : ConM Unit := do
  let old ← testAndSet forceStopBit
  when (old = 0) (stopTransfer (if msgType = .transReset then .reset else .rejected))

def connectionDoConnectionStop : ConM Unit := do
  let old ← testAndSet forceStopBit
  when (old = 0) do
    stopTransfer .forceStop
    sendDatagram .transReset (2 ^ 32 - 1) 0 []

def connectionDoSender (clock : Nat → Nat) : ConM Unit := do
  let _ ← testAndReset rebackSenderBit
  doSend clock
  let _ ← testAndReset inSenderBit
  let back ← testAndReset rebackSenderBit
  when (back = 1) addToSenderQueue

end ConM

/-! ### Creation -/

/-- The arguments of `start_sender`. -/
structure SendArgs where
  node : List MessageNode
  block : Option (List UInt8)
  blockLength : Nat
  remoteAddr : Nat
  delType : SendedDelType
  handler : Option Nat
  defaultSSTHRESH : Nat
  maxWindowSize : Nat

/-- The arguments the user can really pass: one flat block, or a chain and no block, with the total
length in an `unsigned int`. -/
structure SendArgs.WF (a : SendArgs) : Prop where
  length : a.blockLength < 2 ^ 32
  source : (a.node = [] ∧ ∃ b, a.block = some b ∧ b.length = a.blockLength) ∨
    (a.node ≠ [] ∧ a.block = none ∧ u32 ((a.node.map (·.sourceData.length)).sum) = a.blockLength)
  ssthresh : a.defaultSSTHRESH < 2 ^ 64
  maxWindow : a.maxWindowSize < 2 ^ 64

/-- The writer of `__start_sender` with id `id0` and label `id1`. -/
def newWriter (a : SendArgs) (id0 id1 : Nat) : Connection :=
  let c := if a.blockLength ≤ smallFileMaxSize then construct .simpleWriter
    else { construct .complexWriter with
            defaultWindowSize := a.maxWindowSize, windowSsthresh := a.defaultSSTHRESH }
  { c with
    id0 := id0, id1 := id1, rto := connectionDefaultRto,
    sendedHandle := a.handler, delType := a.delType,
    transMessageNode := a.node, transmitBuf := a.block, transmitBufLength := a.blockLength,
    remoteAddr := a.remoteAddr, status := (c.status.testAndSet connectionTypeBit).2 }

/-- `HDS_UDP_Recv_Verification_Attribute`: the answer of the user's verification function. -/
structure RecvVerificationAttribute where
  recv : Bool
  manualManger : Bool
  recvBuf : Option (List UInt8)
  recvFailedFunc : Option Nat

/-- `start_recver` up to the decoded header. -/
def newReader (complex : Bool) (d : Datagram) : Connection :=
  let c := construct (if complex then .complexReader else .simpleReader)
  { c with
    status := (c.status.testAndReset connectionTypeBit).2,
    id0 := d.toId, id1 := d.fromId, transmitBufLength := d.dtNote }

/-- `start_recver` once a slot was found: the decoded id is kept as label and the reader waits for
its second packet. -/
def waitingReader (c : Connection) (id0 remoteAddr : Nat) : Connection :=
  { c with
    requireDuplicateLabel := c.id0, id0 := id0, remoteAddr := remoteAddr,
    status := (c.status.testAndSet inRecvWaitAckQueueBit).2 }

/-- The verification and buffer part of `start_recver`; `none` goes to `recv_reject`. `attr` is the
answer of the verification function, if one is set, and `buffer` what `Buffer_Pool::get_buffer`
returns. -/
def equipReader (attr : Option RecvVerificationAttribute) (buffer : Option (List UInt8))
    (c : Connection) :
    Option Connection :=
  let verified : Option Connection :=
    match attr with
    | none => some c
    | some a =>
      if a.recv then
        some { c with
          recvFailedHandle := a.recvFailedFunc
          transmitBuf := a.recvBuf
          recvBufType := if a.recvBuf.isSome then (if a.manualManger then .userSpaceNoDel
            else .userSpaceDel)
            else c.recvBufType }
      else none
  verified.bind fun c =>
    if c.transmitBuf.isSome then some c
    else buffer.map fun b =>
      { c with
        transmitBuf := some b
        recvBufType := if c.transmitBufLength > bufferPoolMaxCtlSize then .mallocSpaceDel
          else .poolSpace }

theorem equipReader_some {attr : Option RecvVerificationAttribute} {buffer : Option (List UInt8)}
    {c c' : Connection} (h : equipReader attr buffer c = some c') :
    ∃ handle buf type,
      c' = { c with recvFailedHandle := handle, transmitBuf := buf, recvBufType := type } := by
  unfold equipReader at h
  obtain ⟨c₁, h1, h2⟩ := Option.bind_eq_some_iff.1 h
  have hc₁ : ∃ handle buf type,
      c₁ = { c with recvFailedHandle := handle, transmitBuf := buf, recvBufType := type } := by
    split at h1
    · cases h1
      exact ⟨_, _, _, rfl⟩
    · split at h1 <;> cases h1
      exact ⟨_, _, _, rfl⟩
  obtain ⟨handle, buf, type, rfl⟩ := hc₁
  split at h2
  · cases h2
    exact ⟨_, _, _, rfl⟩
  · obtain ⟨b, -, rfl⟩ := Option.map_eq_some_iff.1 h2
    exact ⟨_, _, _, rfl⟩

/-- The end of `start_recver` for an accepted transfer: the first packet and the timers. -/
def ConM.receiveFirst (complex : Bool) (d : Datagram) (recvDataLength : Int) : ConM Unit := do
  doNetworkData 0 0 0 d.sendTime d.data recvDataLength
  addToTimerQueue connectionRecvCheckDeadTime .recverCheckDeadTimer
  when (complex = true) (addToTimerQueue recvAckTimer .recverAckTimer)

/-! ### The queue of waiting readers -/

/-- `Recv_Wait_Ack_Queue`: the slot of a reader by label and id of its writer. -/
abbrev WaitAckQueue := List ((Nat × Nat) × Nat)

/-- `HP_map::insert` keeps an entry that is there. -/
def WaitAckQueue.insert (q : WaitAckQueue) (key : Nat × Nat) (offset : Nat) : WaitAckQueue :=
  if (q.lookup key).isSome then q else (key, offset) :: q

def WaitAckQueue.erase (q : WaitAckQueue) (key : Nat × Nat) : WaitAckQueue := q.filter (·.1 ≠ key)

/-! ### One connection -/

/-- What `_cid_array` holds in the connection's slot. -/
inductive Slot
  | null
  | live
  | suspended
deriving DecidableEq, Repr

structure Life where
  con : Connection
  slot : Slot
  timers : List (TimerType × Nat)
  queued : Nat
  history : List (List Effect)

namespace Life

def effect (l : Life) : Effect → Life
  | .addTimer _ t runningCount _ => { l with timers := l.timers ++ [(t, runningCount)] }
  | .addToSendQueue _ => { l with queued := l.queued + 1 }
  | .suspendConnectionID _ => { l with slot := .suspended }
  | .releaseConnectionID _ => { l with slot := .null }
  | _ => l

/-- The slot after one effect. -/
def slotAfter (slot : Slot) : Effect → Slot
  | .suspendConnectionID _ => .suspended
  | .releaseConnectionID _ => .null
  | _ => slot

/-- The timer an effect arms. -/
def armed : Effect → Option (TimerType × Nat)
  | .addTimer _ t runningCount _ => some (t, runningCount)
  | _ => none

/-- The life after its connection has run a handler. -/
def ran (l : Life) (x : ConM Unit) : Life :=
  let r := exec x l.con
  r.2.foldl effect { l with con := r.1, history := r.2 :: l.history }

theorem foldl_effect (l : Life) (es : List Effect) :
    (es.foldl effect l).con = l.con ∧ (es.foldl effect l).history = l.history ∧
      (es.foldl effect l).slot = es.foldl slotAfter l.slot ∧
      (es.foldl effect l).timers = l.timers ++ es.filterMap armed := by
  induction es generalizing l with
  | nil => simp
  | cons e es ih =>
    obtain ⟨h1, h2, h3, h4⟩ := ih (l.effect e)
    cases e <;> refine ⟨h1, h2, h3, h4.trans ?_⟩ <;> simp [List.filterMap_cons, effect, armed]

section ran
variable (l : Life) (x : ConM Unit)

@[simp] theorem con_ran : (l.ran x).con = (exec x l.con).1 := (foldl_effect _ _).1

@[simp] theorem history_ran : (l.ran x).history = (exec x l.con).2 :: l.history :=
  (foldl_effect _ _).2.1

@[simp] theorem slot_ran : (l.ran x).slot = (exec x l.con).2.foldl slotAfter l.slot :=
  (foldl_effect _ _).2.2.1

@[simp] theorem timers_ran : (l.ran x).timers = l.timers ++ (exec x l.con).2.filterMap armed :=
  (foldl_effect _ _).2.2.2

end ran

inductive Act
  | networkData (inc now : Nat) (d : Datagram) (recvDataLength : Int)
  | reset (msgType : MsgType)
  | stop
  | timeOut (j : Nat)
  | sender (clock : Nat → Nat)

/-- `connection_do_time_out` finds the connection in its slot, or through the timer's own pointer
while the slot is suspended; all other dispatchers need the slot. -/
def step (l : Life) : Act → Option Life
  | .networkData inc now d recvDataLength =>
    if l.slot = .live ∧ l.con.id0 = d.toId then
      some (l.ran (ConM.connectionDoNetworkData inc now d recvDataLength)) else none
  | .reset msgType => if l.slot = .live then some (l.ran (ConM.connectionDoConnectionReset msgType))
    else none
  | .stop => if l.slot = .live then some (l.ran ConM.connectionDoConnectionStop) else none
  | .timeOut j =>
    match l.timers[j]? with
    | none => none
    | some (t, runningCount) =>
      let l := { l with timers := l.timers.eraseIdx j }
      if l.slot = .null then some l else some (l.ran (ConM.doTimeOut t runningCount))
  | .sender clock =>
    if l.queued = 0 then none
    else
      let l := { l with queued := l.queued - 1 }
      if l.slot = .live then some (l.ran (ConM.connectionDoSender clock)) else some l

/-- A writer right after `start_sender`. -/
def startSender (a : SendArgs) (id0 id1 : Nat) : Life :=
  ran ⟨newWriter a id0 id1, .live, [], 0, []⟩ ConM.addToSenderQueue

/-- A reader right after `start_recver` accepted `d`. -/
def startRecver (complex : Bool) (d : Datagram) (recvDataLength : Int) (c : Connection) : Life :=
  ran ⟨c, .live, [], 0, []⟩ (ConM.receiveFirst complex d recvDataLength)

end Life

end Resend.Udp
