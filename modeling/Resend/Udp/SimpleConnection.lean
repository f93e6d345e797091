import Resend.Udp.Connection

/-!
# Simple files: stop and wait

The handlers of `HDS_UDP_Simple_Connection_Writer` and `HDS_UDP_Simple_Connection_Reader`. The writer
has one packet outstanding, the one at `_left_window_cursor`; the reader accepts only the packet at
its own cursor and acknowledges its cursor after every datagram.
-/

namespace Resend.Udp.SimpleConnection
open Handler ConM Connection

/-! ### Writer -/

def writerConnectionDoTimeOut (timerType : TimerType) (runningCount : Nat) : ConM Unit :=
  match timerType with
  | .connectionSuspendTimer => writerSuspendTimeOut
  | .senderKeepingTimer => do
    let c ← get
    when (c.runningCount = runningCount) do
      modify fun c => { c with tryTime := c.tryTime + 1 }
      let c ← get
      if c.tryTime = sendTryTime then
        setTransResultCode .timeOut
        transSuspend
      else
        setConnectionRTODouble
        addToSenderQueue
  | _ => pure ()

/-- The message kind of the packet at `seq`: only the first REQUIRE goes out as such. -/
def sendMsgType (seq : Nat) : ConM MsgType := do
  if seq = 0 then
    let old ← testAndSet hasSendRequieBit
    return if old = 0 then .simpleFileRequire else .simpleFileRequireDuplicate
  else return .simpleFileData

/-- `_writer_conneciton_do_send` at clock reading `now`. -/
def writerConnectionDoSend (now : Nat) : ConM Unit := do
  let stop ← bitTest forceStopBit
  if stop = 1 then transSuspend
  else
    let c ← get
    let seq := u32 c.leftWindowCursor
    when (¬ seq > sub32 c.transmitBufLength 1) do
      let msgType ← sendMsgType seq
      let dtNote := if seq = 0 then c.transmitBufLength else seq
      sendDatagram msgType now dtNote ((c.fillData seq).getD [])
      increaseRunningCount
      let c ← get
      addToTimerQueue c.rto .senderKeepingTimer

def writerConnectionDoNetworkData (now seq sendTime : Nat) : ConM Unit := do
  modify fun c => { c with tryTime := 0 }
  let res ← setConnectionLeftWindowCursor seq
  when (¬ res = -1) do
    increaseRunningCount
    let c ← get
    if seq > sub32 c.transmitBufLength 1 then
      setTransResultCode .successfully
      transSuspend
    else
      setConnectionRTO now sendTime
      addToSenderQueue

/-! ### Reader -/

def readerConnectionDoTimeOut (timerType : TimerType) (runningCount : Nat) : ConM Unit :=
  match timerType with
  | .forceResetTimer => readerForceReset
  | .recverCheckDeadTimer => readerCheckDead runningCount
  | .connectionSuspendTimer => readerSuspendTimeOut
  | _ => pure ()

/-- The answer of a reader that takes no more data: the final ack if it has everything. -/
def readerAnswerStopped (seq sendTime : Nat) : ConM Unit := do
  let c ← get
  if sub64 c.leftWindowCursor c.transmitBufLength ≤ packetMaxDataLength then
    sendDatagram .simpleFileAck sendTime c.leftWindowCursor []
  else sendDatagram .transReset sendTime seq []

/-- All packets are in: push the message once. -/
def readerCheckComplete : ConM Unit := do
  let c ← get
  when (c.leftWindowCursor > sub32 c.transmitBufLength 1 ∧
      c.memcpyCount = sub32 c.transmitBufLength 1 / packetMaxDataLength + 1) do
    let old ← testAndSet transSucBit
    when (old = 0) do
      setTransResultCode .successfully
      pushMsg

def readerConnectionDoNetworkData (seq sendTime : Nat) (recvData : List UInt8) (recvDataLength : Int) :
    ConM Unit := do
  let stop ← bitTest forceStopBit
  let succ ← bitTest transSucBit
  if stop = 1 ∨ succ = 1 then readerAnswerStopped seq sendTime
  else
    increaseRunningCount
    let c ← get
    when (c.leftWindowCursor = seq) do
      modify fun c => { c with leftWindowCursor := u32 (seq + packetMaxDataLength) }
      copyData seq recvData recvDataLength
      modify fun c => { c with memcpyCount := c.memcpyCount + 1 }
      readerCheckComplete
    let c ← get
    sendDatagram .simpleFileAck sendTime c.leftWindowCursor []

end Resend.Udp.SimpleConnection
