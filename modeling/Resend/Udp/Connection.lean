import Resend.Lib.Handler
import Resend.Udp.AckInfoCollector

/-!
# Connections

`struct connection` with its four subclasses as one record: `kind` says which function table
`construct` installed, and the fields a kind does not have stay at the zero `memset` left. A handler
is a `ConM` computation: it works on the connection's own fields and emits, in order, what it does to
the rest of the process (datagrams, timers, the connection table, callbacks, buffers).
-/

namespace Resend.Udp
open Handler

/-! ### Enumerations -/

/-- `TRANS_RESULT_CODE`; `unset` is the zero of a fresh connection. -/
inductive TransResultCode
  | unset
  | successfully
  | timeOut
  | rejected
  | natFailed
  | unkown
  | guidConflict
  | forceStop
  | kernelNoSpace
  | reset
  | connectErr
deriving DecidableEq, Repr

/-- `Connection_Timer_Type`. -/
inductive TimerType
  | senderKeepingTimer
  | recverCheckDeadTimer
  | connectionSuspendTimer
  | forceResetTimer
  | recverAckTimer
  | recverSuccTimer
deriving DecidableEq, Repr

/-- `Recv_Buf_Type`; `unset` is the zero of a fresh reader. -/
inductive RecvBufType
  | unset
  | poolSpace
  | userSpaceDel
  | userSpaceNoDel
  | mallocSpaceDel
  | mallocSpaceNoDel
deriving DecidableEq, Repr

/-- `SENDED_DEL_TYPE`. -/
inductive SendedDelType
  | noDeleteAfterSend
  | deleteAfterSend
deriving DecidableEq, Repr

/-- Which `construct` ran. -/
inductive ConnKind
  | simpleWriter
  | complexWriter
  | simpleReader
  | complexReader
deriving DecidableEq, Repr

def ConnKind.isWriter : ConnKind → Bool
  | .simpleWriter | .complexWriter => true
  | .simpleReader | .complexReader => false

/-! ### The record -/

/-- One `message_node` of a chained send; `sendHandle` names the callback, if there is one. -/
structure MessageNode where
  sourceData : List UInt8
  delType : SendedDelType
  sendHandle : Option Nat
deriving DecidableEq, Repr

/-- The fields of `struct connection`. -/
structure ConnectionBase where
  kind : ConnKind
  id0 : Nat
  id1 : Nat
  runningCount : Nat
  transResultCode : TransResultCode
  status : Word
  transmitBuf : Option (List UInt8)
  transmitBufLength : Nat
  remoteAddr : Nat
  leftWindowCursor : Nat

/-- What `Connection_Writer` adds. -/
structure WriterFields where
  srtt : Int
  rttvar : Int
  rto : Int
  sendedHandle : Option Nat
  delType : SendedDelType
  tryTime : Nat
  aceTransmitBlock : Bool
  transMessageNode : List MessageNode

/-- What `HDS_UDP_Complex_Connection_Writer` adds. -/
structure ComplexWriterFields where
  currentWindowCursor : Nat
  oldCurrentWindowCursor : Nat
  rightWindowCursor : Nat
  windowSite : Nat
  windowSsthresh : Nat
  defaultWindowSize : Nat
  sackSeq : Nat
  sackSameCount : Nat

/-- What `Connection_Reader` and its two subclasses add. -/
structure ReaderFields where
  requireDuplicateLabel : Nat
  recvBufType : RecvBufType
  recvFailedHandle : Option Nat
  memcpyCount : Nat
  ackInfoCollector : AckInfoCollector

structure Connection extends ConnectionBase, WriterFields, ComplexWriterFields, ReaderFields

namespace Connection

/-- The bits of `_status`. Writers and readers use the numbers from 4 on for different things. -/
@[simp] abbrev transSucBit : Nat := 0
@[simp] abbrev bufCleanBit : Nat := 1
@[simp] abbrev forceStopBit : Nat := 2
@[simp] abbrev connectionTypeBit : Nat := 3
@[simp] abbrev inSenderBit : Nat := 4
@[simp] abbrev rebackSenderBit : Nat := 5
@[simp] abbrev refleshRtoBit : Nat := 6
@[simp] abbrev hasSendRequieBit : Nat := 7
@[simp] abbrev hasSackBit : Nat := 8
@[simp] abbrev hasTimeOutBit : Nat := 9
@[simp] abbrev doingAckBit : Nat := 10
@[simp] abbrev stillDoingSackBit : Nat := 11
@[simp] abbrev sackHasNewAckBit : Nat := 12
@[simp] abbrev inRecvWaitAckQueueBit : Nat := 4
@[simp] abbrev setRecvSuccTimerBit : Nat := 5
@[simp] abbrev readerSackBit : Nat := 6

/-- Bit `k` of `_status`. -/
@[simp] abbrev has (c : Connection) (k : Nat) : Bool := c.status.bit k

/-- `construct`: `memset` to zero, the function table, and the initial window of a complex writer. -/
def construct (kind : ConnKind) : Connection where
  kind := kind
  id0 := 0
  id1 := 0
  runningCount := 0
  transResultCode := .unset
  status := 0#64
  transmitBuf := none
  transmitBufLength := 0
  remoteAddr := 0
  leftWindowCursor := 0
  srtt := 0
  rttvar := 0
  rto := 0
  sendedHandle := none
  delType := .noDeleteAfterSend
  tryTime := 0
  aceTransmitBlock := false
  transMessageNode := []
  currentWindowCursor := 0
  oldCurrentWindowCursor := 0
  rightWindowCursor := if kind = .complexWriter then packetMaxDataLength else 0
  windowSite := if kind = .complexWriter then packetMaxDataLength else 0
  windowSsthresh := if kind = .complexWriter then defaultSsthreshSize else 0
  defaultWindowSize := 0
  sackSeq := 0
  sackSameCount := 0
  requireDuplicateLabel := 0
  recvBufType := .unset
  recvFailedHandle := none
  memcpyCount := 0
  ackInfoCollector := .zero

/-- `get_connection_offset`: the slot in the connection table. -/
def offset (c : Connection) : Nat := c.id0 % maxConnectionCount

/-- What `reader->_require_duplicate_label` reads: in a writer the first field past `connection` is
`_SRTT`. -/
def labelField (c : Connection) : Nat :=
  if c.kind.isWriter then (c.srtt % 2 ^ 32).toNat else c.requireDuplicateLabel

end Connection

/-- What a handler does outside its connection. Slots are given by the offset the connection's id has
at that moment. -/
inductive Effect
  | kernelSend (d : Datagram) (remoteAddr : Nat)
  | addTimer (dueTime : Int) (timeoutType : TimerType) (runningCount offset : Nat)
  | addToSendQueue (offset : Nat)
  | suspendConnectionID (offset : Nat)
  | releaseConnectionID (offset : Nat)
  | eraseWaitAck (label id : Nat)
  | freeConnection
  | sendHandle (handle : Nat) (data : List UInt8) (code : TransResultCode)
  | freeSource (data : List UInt8)
  | releaseAceBlock
  | freeMessageNode (node : MessageNode)
  | memcpy (off : Nat) (length : Int)
  | pushMsg (data : List UInt8) (bufType : RecvBufType)
  | recvFailed (handle : Nat) (code : TransResultCode)
  | releaseBuffer (length : Nat)
  | freeBuffer
deriving DecidableEq

abbrev ConM := Handler Connection Effect

namespace ConM
open Connection

/-! ### Atomic bits -/

def testAndSet (off : Nat) : ConM Int := modifyGet fun c =>
  ((c.status.testAndSet off).1, { c with status := (c.status.testAndSet off).2 })

def testAndReset (off : Nat) : ConM Int := modifyGet fun c =>
  ((c.status.testAndReset off).1, { c with status := (c.status.testAndReset off).2 })

def bitTest (off : Nat) : ConM Int := do
  let c ← get
  return c.status.bitTest off

/-! ### Timers, the sender queue and the table -/

/-- `add_to_timer_queue`. -/
def addToTimerQueue (dueTime : Int) (timerType : TimerType) : ConM Unit := do
  let c ← get
  emit (.addTimer dueTime timerType c.runningCount c.offset)

/-- `Connection_Writer::add_to_sender_queue`. -/
def addToSenderQueue : ConM Unit := do
  let old ← testAndSet inSenderBit
  if old = 0 then
    let c ← get
    emit (.addToSendQueue c.offset)
  else
    let _ ← testAndSet rebackSenderBit

/-- The common end of a transfer: the first caller takes the slot out of the table and arms
`Connection_Suspend_Timer`. -/
def transSuspend : ConM Unit := do
  let old ← testAndSet bufCleanBit
  when (old = 0) do
    let c ← get
    emit (.suspendConnectionID c.offset)
    addToTimerQueue connectionMaxSuspendTime .connectionSuspendTimer

def setTransResultCode (code : TransResultCode) : ConM Unit :=
  modify fun c => { c with transResultCode := code }

/-- `_running_count++`. -/
def increaseRunningCount : ConM Unit := modify fun c => { c with runningCount := c.runningCount + 1 }

/-- `CONNECTION_FILL_HEADER` on the connection's id, and `kernel_send` to its peer. -/
def sendDatagram (msgType : MsgType) (sendTime dtNote : Nat) (data : List UInt8) : ConM Unit := do
  let c ← get
  emit (.kernelSend ⟨msgType, c.id1, c.id0, sendTime, u32 dtNote, data⟩ c.remoteAddr)

/-- `free_connetcion`. For a waiting reader the macro overwrites the connection's own id with the
label before the erase. -/
def freeConnection : ConM Unit := do
  let type ← bitTest connectionTypeBit
  when (type = 0) do
    let old ← testAndReset inRecvWaitAckQueueBit
    when (old = 1) do
      modify fun c => { c with id0 := c.labelField }
      let c ← get
      emit (.eraseWaitAck c.id0 c.id1)
  emit .freeConnection

/-! ### The left cursor -/

/-- The exchange loop of `set_connection_left_window_cursor`: the cursor and `lseq` after it. -/
def exchangeLoop : Nat → Nat → Nat → Nat × Nat
  | 0, cursor, lseq => (cursor, lseq)
  | n + 1, cursor, lseq => if cursor > lseq then exchangeLoop n lseq cursor else (lseq, lseq)

/-- `set_connection_left_window_cursor`: two exchanges are enough when nobody interferes. -/
def setConnectionLeftWindowCursor (seq : Nat) : ConM Int := modifyGet fun c =>
  let r := exchangeLoop 2 c.leftWindowCursor seq
  (if r.2 ≤ seq then 0 else -1, { c with leftWindowCursor := r.1 })

/-! ### Round-trip times -/

/-- The sample part of `set_connection_RTO`. The macro `rto_diff` has no parentheses, so the sum
`3*_RTTVAR + _SRTT` is what it compares with the sample. -/
def rtoSample (rtt : Int) (c : Connection) : Connection :=
  if rtt > 0 then
    let rttvar := if c.srtt = 0 then rtt >>> (1 : Nat)
      else (if 3 * c.rttvar + c.srtt > rtt then c.srtt - rtt else rtt - c.srtt) >>> (2 : Nat)
    let srtt := if c.srtt = 0 then rtt else (7 * c.srtt + rtt) >>> (3 : Nat)
    let rto := srtt + 4 * rttvar
    let rto := if rto < connectionMinRto then connectionMinRto else rto
    let rto := if rto > connectionMaxRto then connectionMaxRto else rto
    { c with rttvar := rttvar, srtt := srtt, rto := rto }
  else c

/-- `set_connection_RTO` at clock reading `now`. -/
def setConnectionRTO (now sendTime : Nat) : ConM Unit := do
  let old ← testAndSet refleshRtoBit
  when (old = 0) do
    modify (rtoSample (toInt32 (sub32 now sendTime)))
    let _ ← testAndReset refleshRtoBit

def setConnectionRTODouble : ConM Unit := do
  let old ← testAndSet refleshRtoBit
  when (old = 0) do
    modify fun c =>
      { c with rto := if 2 * c.rto > connectionMaxRto then connectionMaxRto else 2 * c.rto }
    let _ ← testAndReset refleshRtoBit

end ConM

/-! ### The source block -/

namespace MessageNode

/-- The first loop of `CONNECTION_FILL_DATA`: the nodes from the one that holds byte `off` on, and
where in it to start. `none` is the read through a null `next`. -/
def seek : List MessageNode → Int → Option (List MessageNode × Nat)
  | [], _ => some ([], 0)
  | n :: ns, off =>
    let off := off - n.sourceData.length
    if off < 0 then some (n :: ns, ((n.sourceData.length : Int) + off).toNat)
    else if off = 0 then (if ns = [] then none else some (ns, 0))
    else seek ns off

/-- The second loop: `copySize` bytes from position `start` of the first node on. -/
def copy : List MessageNode → Nat → Nat → Option (List UInt8)
  | [], _, _ => some []
  | n :: ns, start, copySize =>
    let tempsz := n.sourceData.length - start
    if tempsz ≥ copySize then some ((n.sourceData.drop start).take copySize)
    else if ns = [] then none
    else (copy ns 0 (copySize - tempsz)).map (n.sourceData.drop start ++ ·)

end MessageNode

namespace Connection

/-- `CONNECTION_FILL_DATA`: `none` where the code would follow a null pointer. -/
def fillData (c : Connection) (seq : Nat) : Option (List UInt8) :=
  let copySize := min (sub32 c.transmitBufLength seq) packetMaxDataLength
  match c.transmitBuf with
  | some buf => some ((buf.drop seq).take copySize)
  | none => (MessageNode.seek c.transMessageNode seq).bind fun r => MessageNode.copy r.1 r.2 copySize

end Connection

namespace ConM
open Connection

/-! ### Completion -/

/-- One node of the chain in `writer_do_connection_sended_handle_and_clean_data`. -/
def nodeDone (code : TransResultCode) (n : MessageNode) : List Effect :=
  (n.sendHandle.toList.map fun h => .sendHandle h n.sourceData code) ++
    (if n.delType = .deleteAfterSend then [.freeSource n.sourceData] else [])

/-- The effects of `writer_do_connection_sended_handle_and_clean_data`. -/
def writerDone (c : Connection) : List Effect :=
  if c.transMessageNode ≠ [] then
    c.transMessageNode.flatMap (nodeDone c.transResultCode) ++ c.transMessageNode.map .freeMessageNode
  else
    match c.sendedHandle with
    | none => []
    | some h =>
      .sendHandle h (c.transmitBuf.getD []) c.transResultCode ::
        (if c.delType = .deleteAfterSend then
          [if c.aceTransmitBlock then .releaseAceBlock else .freeSource (c.transmitBuf.getD [])]
            else [])

/-- `writer_do_connection_sended_handle_and_clean_data`. -/
def writerDoConnectionSendedHandleAndCleanData : ConM Unit := fun c =>
  ((), { c with transMessageNode := [] }, writerDone c)

/-- The effects of `reader_do_connection_sended_handle_and_clean_data`: pool space falls through to
`free`. -/
def readerDone (c : Connection) : List Effect :=
  if c.transResultCode ≠ .successfully then
    (c.recvFailedHandle.toList.map fun h => .recvFailed h c.transResultCode) ++
      (match c.recvBufType with
       | .poolSpace => [.releaseBuffer c.transmitBufLength, .freeBuffer]
       | .mallocSpaceDel | .userSpaceDel => [.freeBuffer]
       | _ => [])
  else []

def readerDoConnectionSendedHandleAndCleanData : ConM Unit := fun c => ((), c, readerDone c)

/-- `Connection_Suspend_Timer` of both writers. -/
def writerSuspendTimeOut : ConM Unit := do
  let old ← testAndSet transSucBit
  when (old = 0) do
    writerDoConnectionSendedHandleAndCleanData
    let c ← get
    emit (.releaseConnectionID c.offset)
    freeConnection

/-- `Force_Reset_Timer` of both readers. -/
def readerForceReset : ConM Unit := do
  let old ← testAndSet transSucBit
  when (old = 0) readerDoConnectionSendedHandleAndCleanData

/-- `Connection_Suspend_Timer` of both readers. -/
def readerSuspendTimeOut : ConM Unit := do
  readerForceReset
  let c ← get
  emit (.releaseConnectionID c.offset)
  freeConnection

/-- `Recver_Check_Dead_Timer` of both readers: no datagram came in since the timer was armed. -/
def readerCheckDead (runningCount : Nat) : ConM Unit := do
  let c ← get
  if c.runningCount = runningCount then
    setTransResultCode .timeOut
    transSuspend
  else addToTimerQueue connectionRecvCheckDeadTime .recverCheckDeadTimer

/-- `memcpy(_transmit_buf + seq, recv_data, recv_data_length)`. -/
def copyData (seq : Nat) (recvData : List UInt8) (recvDataLength : Int) : ConM Unit := do
  modify fun c => { c with transmitBuf := c.transmitBuf.map (memcpyAt · seq recvData) }
  emit (.memcpy seq recvDataLength)

/-- `HDS_UDP_Method_Processor::push_msg` of the receive buffer. -/
def pushMsg : ConM Unit := do
  let c ← get
  emit (.pushMsg (c.transmitBuf.getD []) c.recvBufType)

/-! ### Rules -/

section rules
variable {Q : Int → Connection → List Effect → Prop} {P : Unit → Connection → List Effect → Prop}
  {c : Connection} {k : Nat}

theorem wp_testAndSet (hk : k < 63) :
    wp (testAndSet k) Q c ↔
      Q (if c.has k then 1 else 0) { c with status := (c.status.testAndSet k).2 } [] := by
  have h : (c.status.testAndSet k).1 = if c.has k then 1 else 0 := by
    have hne : k ≠ 63 := by omega
    simp [Word.testAndSet, Word.oldBit_eq c.status (Nat.lt_succ_of_lt hk), hne]
  rw [← h]; rfl

theorem wp_testAndReset (hk : k < 63) :
    wp (testAndReset k) Q c ↔
      Q (if c.has k then 1 else 0) { c with status := (c.status.testAndReset k).2 } [] := by
  have h : (c.status.testAndReset k).1 = if c.has k then 1 else 0 := by
    have hne : k ≠ 63 := by omega
    simp [Word.testAndReset, Word.oldBit_eq c.status (Nat.lt_succ_of_lt hk), hne]
  rw [← h]; rfl

theorem wp_bitTest (hk : k < 63) : wp (bitTest k) Q c ↔ Q (if c.has k then 1 else 0) c [] := by
  rw [← Word.bitTest_eq c.status hk]; rfl

theorem wp_addToTimerQueue (dueTime : Int) (t : TimerType) :
    wp (addToTimerQueue dueTime t) P c ↔ P () c [.addTimer dueTime t c.runningCount c.offset] := Iff.rfl

theorem wp_sendDatagram (t : MsgType) (sendTime dtNote : Nat) (data : List UInt8) :
    wp (sendDatagram t sendTime dtNote data) P c ↔
      P () c [.kernelSend ⟨t, c.id1, c.id0, sendTime, u32 dtNote, data⟩ c.remoteAddr] := Iff.rfl

theorem wp_setTransResultCode (code : TransResultCode) :
    wp (setTransResultCode code) P c ↔ P () { c with transResultCode := code } [] := Iff.rfl

theorem wp_increaseRunningCount :
    wp increaseRunningCount P c ↔ P () { c with runningCount := c.runningCount + 1 } [] := Iff.rfl

theorem wp_addToSenderQueue :
    wp addToSenderQueue P c ↔
      if c.has inSenderBit then
        P () { c with status := ((c.status.testAndSet inSenderBit).2.testAndSet rebackSenderBit).2 } []
      else P () { c with status := (c.status.testAndSet inSenderBit).2 }
        [.addToSendQueue c.offset] := by
  simp only [addToSenderQueue, wp_bind, wp_testAndSet (k := inSenderBit) (by decide), wp_ite]
  cases c.has inSenderBit <;> simp [wp_testAndSet, offset]

theorem wp_transSuspend :
    wp transSuspend P c ↔
      if c.has bufCleanBit then P () { c with status := (c.status.testAndSet bufCleanBit).2 } []
      else P () { c with status := (c.status.testAndSet bufCleanBit).2 }
        [.suspendConnectionID c.offset,
          .addTimer connectionMaxSuspendTime .connectionSuspendTimer c.runningCount c.offset] := by
  simp only [transSuspend, wp_bind, wp_testAndSet (k := bufCleanBit) (by decide), wp_when]
  cases c.has bufCleanBit <;> simp [wp_addToTimerQueue, offset]

theorem exchangeLoop_two (cursor seq : Nat) :
    exchangeLoop 2 cursor seq = if cursor ≤ seq then (seq, seq) else (cursor, cursor) := by
  simp only [exchangeLoop]
  split_ifs
  all_goals first | rfl | omega

theorem wp_setConnectionLeftWindowCursor (seq : Nat) :
    wp (setConnectionLeftWindowCursor seq) Q c ↔
      if c.leftWindowCursor ≤ seq then Q 0 { c with leftWindowCursor := seq } [] else Q (-1) c [] := by
  simp only [setConnectionLeftWindowCursor, wp_modifyGet, exchangeLoop_two]
  split <;> simp_all

theorem wp_writerDone :
    wp writerDoConnectionSendedHandleAndCleanData P c ↔
      P () { c with transMessageNode := [] } (writerDone c) :=
  Iff.rfl

theorem wp_readerDone : wp readerDoConnectionSendedHandleAndCleanData P c ↔ P () c (readerDone c) :=
  Iff.rfl

theorem wp_freeConnection_writer (htype : c.has connectionTypeBit = true) :
    wp freeConnection P c ↔ P () c [.freeConnection] := by
  rw [freeConnection, wp_bind, wp_bitTest (by decide), if_pos htype]
  simp

end rules

end ConM

end Resend.Udp
