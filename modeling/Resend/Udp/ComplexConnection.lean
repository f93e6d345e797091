import Resend.Udp.Connection

/-!
# Complex files: a sliding window

The handlers of `HDS_UDP_Complex_Connection_Writer` and `HDS_UDP_Complex_Connection_Reader`. The writer
sends from `_current_window_cursor` up to `_right_window_cursor`, goes back to the left cursor after a
timeout or three equal acks and returns to the old cursor when the gap is closed. The reader records
packets in its ack collector and acknowledges from a timer.
-/

namespace Resend.Udp.ComplexConnection
open Handler ConM Connection

/-! ### Writer -/

def writerCongestion (c : Connection) : Connection :=
  let nextWindowSsthresh := c.windowSsthresh / 2
  let nextWindowSsthresh :=
    if nextWindowSsthresh < packetMaxDataLength then packetMaxDataLength else nextWindowSsthresh
  { c with windowSsthresh := nextWindowSsthresh, windowSite := packetMaxDataLength,
           oldCurrentWindowCursor := c.currentWindowCursor, rightWindowCursor := c.currentWindowCursor }

def writerConnectionDoTimeOut (timerType : TimerType) (runningCount : Nat) : ConM Unit :=
  match timerType with
  | .connectionSuspendTimer => writerSuspendTimeOut
  | .senderKeepingTimer => do
    let c ← get
    when (c.runningCount = runningCount) do
      modify fun c => { c with tryTime := c.tryTime + 1 }
      let c ← get
      if c.tryTime = sendTryTime then
        setTransResultCode .timeOut
        transSuspend
      else
        setConnectionRTODouble
        let locked ← testAndSet doingAckBit
        when (locked = 0) do
          modify writerCongestion
          let _ ← testAndReset doingAckBit
        let _ ← testAndSet hasTimeOutBit
        addToSenderQueue
  | _ => pure ()

/-- `process_sender_msg_bit`: act on what the ack and timeout handlers left for the sender. -/
def processSenderMsgBit : ConM Unit := do
  let timeOut ← testAndReset hasTimeOutBit
  when (timeOut = 1) (modify fun c => { c with currentWindowCursor := u32 c.leftWindowCursor })
  let sack ← testAndReset hasSackBit
  when (sack = 1) do
    modify fun c => { c with currentWindowCursor := u32 c.leftWindowCursor }
    let _ ← testAndSet stillDoingSackBit
  let newAck ← testAndReset sackHasNewAckBit
  when (newAck = 1) (modify fun c => { c with currentWindowCursor := c.oldCurrentWindowCursor })

/-- The loop test of `_writer_conneciton_do_send`. -/
def canSend (c : Connection) : Prop :=
  c.currentWindowCursor < c.rightWindowCursor ∧ c.currentWindowCursor < c.transmitBufLength

instance (c : Connection) : Decidable (canSend c) := inferInstanceAs (Decidable (_ ∧ _))

/-- The message kind of the packet at the cursor. -/
def sendMsgType (cursor : Nat) : ConM MsgType := do
  if cursor = 0 then
    let old ← testAndSet hasSendRequieBit
    return if old = 0 then .complexFileRequire else .complexFileRequireDuplicate
  else return .complexFileData

/-- Build the packet at the current cursor and send it. -/
def buildAndSend (now : Nat) : ConM Unit := do
  let c ← get
  let msgType ← sendMsgType c.currentWindowCursor
  let dtNote := if c.currentWindowCursor = 0 then c.transmitBufLength else c.currentWindowCursor
  sendDatagram msgType now dtNote ((c.fillData c.currentWindowCursor).getD [])
  increaseRunningCount

def advanceCursor : ConM Unit :=
  modify fun c => { c with currentWindowCursor := u32 (c.currentWindowCursor + packetMaxDataLength) }

/-- `add_to_timer_queue(_RTO, Sender_Keeping_Timer)`, the end of every sender run. -/
def armKeepingTimer : ConM Unit := do
  let c ← get
  addToTimerQueue c.rto .senderKeepingTimer

/-- The sender has had its 16 packets: come back through the queue. -/
def rebackSender : ConM Unit := do
  let _ ← testAndSet rebackSenderBit
  armKeepingTimer

/-- The loop of `_writer_conneciton_do_send` with `16 - send_count` packets to go; `clock` gives the
reading for each. -/
def sendLoop (clock : Nat → Nat) : Nat → ConM Unit
  | 0 => do
    let c ← get
    if canSend c then
      processSenderMsgBit
      rebackSender
    else armKeepingTimer
  | n + 1 => do
    let c ← get
    if canSend c then
      processSenderMsgBit
      buildAndSend (clock n)
      advanceCursor
      sendLoop clock n
    else armKeepingTimer

def writerConnectionDoSend (clock : Nat → Nat) : ConM Unit := do
  let stop ← bitTest forceStopBit
  if stop = 1 then transSuspend
  else
    processSenderMsgBit
    sendLoop clock 16

/-- Count equal acks; a new one past the current cursor ends the recovery. The result is
`is_new_sack`. -/
def recordSack (seq : Nat) : ConM Int := do
  let c ← get
  if c.sackSeq ≠ seq then
    modify fun c => { c with sackSeq := seq, sackSameCount := 1 }
    if seq ≥ c.currentWindowCursor then testAndReset stillDoingSackBit else return 0
  else
    modify fun c => { c with sackSameCount := u32 (c.sackSameCount + 1) }
    return 0

/-- The next window. `inc` is `(unsigned long)(_ack_seq_window_increase_factor * seq_interval)`. -/
def nextWindow (inc : Nat) (c : Connection) : Connection :=
  if c.windowSite ≥ c.windowSsthresh then
    let next := u64 (c.windowSite + inc)
    let next := if next > c.defaultWindowSize then c.defaultWindowSize else next
    let next := if next < c.windowSite then c.windowSite else next
    { c with windowSsthresh := next, windowSite := next }
  else { c with windowSite := u64 (2 * c.windowSite) }

/-- The normal case of an ack. -/
def growWindow (inc : Nat) (isNewSack : Int) : ConM Unit := do
  (if isNewSack ≠ 0 then do
    modify fun c => { c with windowSite := c.windowSsthresh }
    let _ ← testAndSet sackHasNewAckBit
  else modify (nextWindow inc))
  let inSack ← bitTest stillDoingSackBit
  when (inSack ≠ 1) (modify fun c =>
    { c with rightWindowCursor := u64 (c.leftWindowCursor + c.windowSite) })

/-- Three equal acks are a loss, anything else lets the window grow. -/
def adjustWindow (inc : Nat) (isNewSack : Int) : ConM Unit := do
  let c ← get
  if c.sackSameCount ≥ 3 then
    modify writerCongestion
    let _ ← testAndSet hasSackBit
  else growWindow inc isNewSack

/-- `_writer_connection_do_network_data`; `inc` as in `nextWindow`. -/
def writerConnectionDoNetworkData (inc now seq sendTime : Nat) : ConM Unit := do
  modify fun c => { c with tryTime := 0 }
  let res ← setConnectionLeftWindowCursor seq
  when (¬ res = -1) do
    increaseRunningCount
    let c ← get
    if seq > sub32 c.transmitBufLength 1 then
      setTransResultCode .successfully
      transSuspend
    else
      let locked ← testAndSet doingAckBit
      when (¬ locked = 1) do
        setConnectionRTO now sendTime
        let isNewSack ← recordSack seq
        adjustWindow inc isNewSack
        let _ ← testAndReset doingAckBit
        addToSenderQueue

/-! ### Reader -/

/-- `_ack_info_collector.get_next_ack`. -/
def nextAck : ConM (AckType × Nat × Nat) := modifyGet fun c =>
  (c.ackInfoCollector.getNextAck.1, { c with ackInfoCollector := c.ackInfoCollector.getNextAck.2 })

/-- `Recver_Succ_Timer`: hand over the message, if nothing else has ended the transfer. -/
def readerSucc : ConM Unit := do
  let old ← testAndSet transSucBit
  when (old = 0) pushMsg

/-- `Recver_ACK_Timer`. -/
def readerAck : ConM Unit := do
  let stop ← bitTest forceStopBit
  let succ ← bitTest transSucBit
  when (¬ (stop = 1 ∨ succ = 1)) do
    let (type, ackSeq, sendTime) ← nextAck
    let _ ← (if type = .sack then testAndSet readerSackBit else testAndReset readerSackBit)
    sendDatagram (if type = .sack then .complexFileSack else .complexFileAck) sendTime ackSeq []
    let c ← get
    if ackSeq > sub32 c.transmitBufLength 1 then
      setTransResultCode .successfully
      let old ← testAndSet setRecvSuccTimerBit
      when (old = 0) (addToTimerQueue recverSuccTimer .recverSuccTimer)
    else addToTimerQueue recvAckTimer .recverAckTimer

def readerConnectionDoTimeOut (timerType : TimerType) (runningCount : Nat) : ConM Unit :=
  match timerType with
  | .forceResetTimer => readerForceReset
  | .recverCheckDeadTimer => readerCheckDead runningCount
  | .connectionSuspendTimer => readerSuspendTimeOut
  | .recverSuccTimer => readerSucc
  | .recverAckTimer => readerAck
  | .senderKeepingTimer => pure ()

/-- The answer of a reader that takes no more data. -/
def readerAnswerStopped : ConM Unit := do
  let (_, ackSeq, sendTime) ← nextAck
  let c ← get
  if sub32 ackSeq c.transmitBufLength ≤ packetMaxDataLength then
    sendDatagram .complexFileAck sendTime ackSeq []
  else sendDatagram .transReset sendTime ackSeq []

/-- `_ack_info_collector.set`. -/
def collectorSet (seq sendTime : Nat) : ConM (Option Int) := modifyGet fun c =>
  ((c.ackInfoCollector.set seq sendTime).1,
    { c with ackInfoCollector := (c.ackInfoCollector.set seq sendTime).2 })

def readerConnectionDoNetworkData (seq sendTime : Nat) (recvData : List UInt8) (recvDataLength : Int) :
    ConM Unit := do
  let stop ← bitTest forceStopBit
  let succ ← bitTest transSucBit
  if stop = 1 ∨ succ = 1 then readerAnswerStopped
  else
    increaseRunningCount
    let bitValue ← collectorSet seq sendTime
    when (¬ (bitValue = none ∨ bitValue = some 1)) (copyData seq recvData recvDataLength)

end Resend.Udp.ComplexConnection
