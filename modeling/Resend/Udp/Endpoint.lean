import Resend.Udp.Lifecycle

/-!
# The connection table of a process

`_cid_array`, the four connection counters, `Recv_Wait_Ack_Queue`, the armed timers and the sender
queue, with the dispatchers of `HDS_UDP_Connection.cpp` that look connections up there. Objects live
at addresses that the allocator may hand out again; a timer keeps the slot, the address and the
running count of the connection that armed it, a queue entry only the slot. The ghost fields `uid`,
`armedBy` and `addedBy` say which object is meant.
-/

namespace Resend.Udp
open Handler Connection

/-- A slot of `_cid_array`. -/
inductive CidEntry
  | null
  | suspend
  | con (addr : Nat)
deriving DecidableEq

/-- An allocated connection. -/
structure Object where
  addr : Nat
  uid : Nat
  con : Connection

/-- `_timer_parm_`. -/
structure TimerParm where
  connectionOffset : Nat
  runningCount : Nat
  timeoutType : TimerType
  connectionAddr : Nat
  armedBy : Nat

structure SendEntry where
  offset : Nat
  addedBy : Nat

structure Endpoint where
  cidArray : Nat → CidEntry
  cidArrayOffset : Nat
  verificationActor : Nat
  heap : List Object
  counts : ConnKind → Int
  waitAck : WaitAckQueue
  timers : List TimerParm
  sendQueue : List SendEntry
  nextUid : Nat

/-- What the environment answers while a datagram is handled: the memory for a reader, whether
complex files need a verification function, that function's verdict if there is one, the receive
buffer, the float product of `nextWindow` and the clock. -/
structure RecvEnv where
  addr : Option Nat
  needVerification : Bool
  attr : Option RecvVerificationAttribute
  buffer : Option (List UInt8)
  inc : Nat
  now : Nat

/-- An unaltered datagram as the kernel hands it over. -/
def Datagram.received (d : Datagram) (addr : Nat) : KernelRecvData :=
  ⟨addr, d.encode.length, d.encode ++ []⟩

/-- What handling a datagram did to memory and to the network: where header fields were decoded, the
computed payload length, the connection that ran with its effects, and an answer of `start_recver`. -/
structure Report where
  fields : List Nat
  recvDataLength : Option Int
  ran : Option (Connection × List Effect)
  answer : Option (Datagram × Nat)

/-- `CONNECTION_INFO`. -/
structure ConnectionInfo where
  completeSize : Nat
  totalSize : Nat
  transResultCode : TransResultCode
  remoteAddr : Nat
deriving DecidableEq

namespace Endpoint

/-! ### Objects and slots -/

def object (s : Endpoint) (addr : Nat) : Option Object := s.heap.find? (·.addr = addr)

def setSlot (s : Endpoint) (offset : Nat) (e : CidEntry) : Endpoint :=
  { s with cidArray := Function.update s.cidArray offset e }

def count (s : Endpoint) (kind : ConnKind) (n : Int) : Endpoint :=
  { s with counts := Function.update s.counts kind (s.counts kind + n) }

/-- An object comes into being. -/
def alloc (s : Endpoint) (o : Object) : Endpoint :=
  { s with heap := o :: s.heap, nextUid := s.nextUid + 1 }

/-- What an effect of the object `o` does here. -/
def effect (o : Object) (s : Endpoint) : Effect → Endpoint
  | .addTimer _ t runningCount offset =>
    { s with timers := s.timers ++ [⟨offset, runningCount, t, o.addr, o.uid⟩] }
  | .addToSendQueue offset => { s with sendQueue := s.sendQueue ++ [⟨offset, o.uid⟩] }
  | .suspendConnectionID offset => s.setSlot offset .suspend
  | .releaseConnectionID offset => s.setSlot offset .null
  | .eraseWaitAck label id => { s with waitAck := s.waitAck.erase (label, id) }
  | .freeConnection => { s with heap := s.heap.filter (·.addr ≠ o.addr) }.count o.con.kind (-1)
  | _ => s

def store (s : Endpoint) (addr : Nat) (c : Connection) : Endpoint :=
  { s with heap := s.heap.map fun q => if q.addr = addr then { q with con := c } else q }

/-- A handler runs on the object `o`. -/
def runOn (s : Endpoint) (o : Object) (x : ConM Unit) : Endpoint :=
  (exec x o.con).2.foldl (effect o) (s.store o.addr (exec x o.con).1)

/-- `create_connectionID`: one slot is tried. -/
def createConnectionID (s : Endpoint) (addr : Nat) : Option Nat × Endpoint :=
  let offset := s.cidArrayOffset
  let s := { s with cidArrayOffset := if offset + 1 = maxConnectionCount then 1 else offset + 1 }
  match s.cidArray offset with
  | .null => (some (offset + s.verificationActor % 2 ^ 12 * maxConnectionCount),
      { s.setSlot offset (.con addr) with verificationActor := s.verificationActor + 1 })
  | _ => (none, s)

/-! ### Creation -/

/-- `start_sender` with memory at `addr`. -/
def startSender (s : Endpoint) (a : SendArgs) (addr label : Nat) : Endpoint :=
  match s.createConnectionID addr with
  | (none, s) => s
  | (some id, s) =>
    let o : Object := ⟨addr, s.nextUid, newWriter a id label⟩
    ((s.alloc o).count o.con.kind 1).runOn o ConM.addToSenderQueue

def readerKind (complex : Bool) : ConnKind := if complex then .complexReader else .simpleReader

def rejected (complex : Bool) : MsgType := if complex then .complexFileRejected else .simpleFileRejected

/-- The header fields that `CONNECTION_UNFILL_HEADER` decodes, after the message kind. -/
def allFields : List Nat := [0, 4, 8, 12, 16]

/-- `recv_reject` for a reader whose id field holds `id0` and `id1`. -/
def recvReject (s : Endpoint) (complex : Bool) (d : Datagram) (recvDataLength : Int)
    (remoteAddr id0 id1 : Nat) :
    Endpoint × Report :=
  ((s.setSlot (id0 % maxConnectionCount) .null).count (readerKind complex) (-1),
    ⟨allFields, some recvDataLength, none,
      some (⟨rejected complex, id1, id0, d.sendTime, d.sendTime, []⟩, remoteAddr)⟩)

/-- `start_recver`. A reader of length 0 is left allocated, without a slot. -/
def startRecver (s : Endpoint) (complex : Bool) (d : Datagram) (recvDataLength : Int) (remoteAddr : Nat)
    (e : RecvEnv) : Endpoint × Report :=
  match e.addr with
  | none => (s, ⟨[0], none, none, none⟩)
  | some addr =>
    if complex ∧ e.needVerification ∧ e.attr.isNone then (s, ⟨[0], none, none, none⟩)
    else
      let s := s.count (readerKind complex) 1
      if d.dtNote = 0 then
        (s.alloc ⟨addr, s.nextUid, newReader complex d⟩, ⟨allFields, some recvDataLength, none, none⟩)
      else
        match s.createConnectionID addr with
        | (none, s) => s.recvReject complex d recvDataLength remoteAddr 0 0
        | (some id, s) =>
          let s := { s with waitAck := s.waitAck.insert (d.toId, d.fromId) (id % maxConnectionCount) }
          match equipReader e.attr e.buffer (waitingReader (newReader complex d) id remoteAddr) with
          | none => s.recvReject complex d recvDataLength remoteAddr id d.fromId
          | some c =>
            let x := ConM.receiveFirst complex d recvDataLength
            let o : Object := ⟨addr, s.nextUid, c⟩
            ((s.alloc o).runOn o x, ⟨allFields, some recvDataLength, some (c, (exec x c).2), none⟩)

/-! ### Dispatchers -/

/-- The object in a slot, for the dispatchers that give up on an empty or suspended one. -/
def inSlot (s : Endpoint) (offset : Nat) : Option Object :=
  match s.cidArray offset with
  | .con addr => s.object addr
  | _ => none

/-- Run `x` on the object found, if there is one. -/
def dispatch (s : Endpoint) (recvDataLength : Int) (x : ConM Unit) : Option Object → Endpoint × Report
  | none => (s, ⟨allFields, some recvDataLength, none, none⟩)
  | some o => (s.runOn o x, ⟨allFields, some recvDataLength, some (o.con, (exec x o.con).2), none⟩)

/-- `connection_do_network_data` looks for the connection with the whole id. -/
def addressed (s : Endpoint) (id : Nat) : Option Object :=
  (s.inSlot (id % maxConnectionCount)).filter (·.con.id0 = id)

def connectionDoNetworkData (s : Endpoint) (d : Datagram) (recvDataLength : Int) (e : RecvEnv) :
    Endpoint × Report :=
  s.dispatch recvDataLength (ConM.connectionDoNetworkData e.inc e.now d recvDataLength)
    (s.addressed d.toId)

def connectionDoRequireDuplicate (s : Endpoint) (complex : Bool) (d : Datagram) (recvDataLength : Int)
    (remoteAddr : Nat) (e : RecvEnv) : Endpoint × Report :=
  match s.waitAck.lookup (d.toId, d.fromId) with
  | none =>
    let r := s.startRecver complex d recvDataLength remoteAddr e
    (r.1, { r.2 with fields := allFields, recvDataLength := some recvDataLength })
  | some offset =>
    s.dispatch recvDataLength (ConM.connectionDoRequireDuplicate complex d remoteAddr) (s.inSlot offset)

/-- `connection_do_connection_reset` looks at the slot only. -/
def connectionDoConnectionReset (s : Endpoint) (d : Datagram) (recvDataLength : Int) :
    Endpoint × Report :=
  s.dispatch recvDataLength (ConM.connectionDoConnectionReset d.msgType)
    (s.inSlot (d.toId % maxConnectionCount))

/-- `connection_do_connection_stop`, with its result. -/
def connectionDoConnectionStop (s : Endpoint) (id : Nat) : Int × Endpoint :=
  match s.inSlot (id % maxConnectionCount) with
  | none => (-1, s)
  | some o => (0, s.runOn o ConM.connectionDoConnectionStop)

/-- `get_connection_info`; `none` is the result `-1`. -/
def getConnectionInfo (s : Endpoint) (id : Nat) : Option ConnectionInfo :=
  (s.inSlot (id % maxConnectionCount)).map fun o =>
    ⟨o.con.leftWindowCursor, o.con.transmitBufLength, o.con.transResultCode, o.con.remoteAddr⟩

/-- The address `connection_do_time_out` calls: the slot's, or the timer's own while the slot is
suspended. -/
def target (s : Endpoint) (t : TimerParm) : Option Nat :=
  match s.cidArray t.connectionOffset with
  | .null => none
  | .suspend => some t.connectionAddr
  | .con addr => some addr

/-- `connection_do_time_out`. Where the address has been freed (the slot is suspended by another
connection by now), the code calls into freed memory; what comes of that is not known, and the call
does nothing here. -/
def connectionDoTimeOut (s : Endpoint) (t : TimerParm) : Endpoint :=
  match (s.target t).bind s.object with
  | none => s
  | some o => s.runOn o (ConM.doTimeOut t.timeoutType t.runningCount)

def connectionDoSender (s : Endpoint) (offset : Nat) (clock : Nat → Nat) : Endpoint :=
  match s.inSlot offset with
  | none => s
  | some o => s.runOn o (ConM.connectionDoSender clock)

/-- The switch in `filter_data`; its default leaves the datagram to the user's processors. -/
def filterMsg (s : Endpoint) (r : KernelRecvData) (e : RecvEnv) : Option MsgType → Endpoint × Report
  | none => (s, ⟨[0], none, none, none⟩)
  | some t =>
    let (d, recvDataLength) := unfillHeader t r
    match t.target with
    | .startRecver complex => s.startRecver complex d recvDataLength r.remoteAddr e
    | .networkData => s.connectionDoNetworkData d recvDataLength e
    | .requireDuplicate complex =>
      s.connectionDoRequireDuplicate complex d recvDataLength r.remoteAddr e
    | .connectionReset => s.connectionDoConnectionReset d recvDataLength

/-- `filter_data`. -/
def filterData (s : Endpoint) (r : KernelRecvData) (e : RecvEnv) : Endpoint × Report :=
  s.filterMsg r e (MsgType.ofCode (readUlong r.data 0))

/-! ### The machine -/

inductive Act
  | startSender (a : SendArgs) (addr label : Nat)
  | recv (r : KernelRecvData) (e : RecvEnv)
  | timeOut (j : Nat)
  | sender (j : Nat) (clock : Nat → Nat)
  | stop (id : Nat)

/-- The allocator gives out only memory that is free. -/
def Free (s : Endpoint) (addr : Nat) : Prop := s.object addr = none

instance (s : Endpoint) (addr : Nat) : Decidable (s.Free addr) :=
  decidable_of_iff ((s.object addr).isNone = true) Option.isNone_iff_eq_none

def step (s : Endpoint) : Act → Option Endpoint
  | .startSender a addr label => if s.Free addr then some (s.startSender a addr label) else none
  | .recv r e => if ∀ addr ∈ e.addr, s.Free addr then some (s.filterData r e).1 else none
  | .timeOut j => (s.timers[j]?).map fun t =>
    { s with timers := s.timers.eraseIdx j }.connectionDoTimeOut t
  | .sender j clock =>
    (s.sendQueue[j]?).map fun q =>
      { s with sendQueue := s.sendQueue.eraseIdx j }.connectionDoSender q.offset clock
  | .stop id => some (s.connectionDoConnectionStop id).2

/-- `connection::init` with a given cursor and verification value. -/
def start (cursor actor : Nat) : Endpoint :=
  ⟨fun _ => .null, cursor, actor, [], fun _ => 0, [], [], [], 0⟩

def machine : Machine Endpoint Act where
  init s := ∃ cursor < maxConnectionCount, ∃ actor, s = start cursor actor
  step := step

end Endpoint

end Resend.Udp
