import Resend.Lib.Machine
import Resend.Socks.TcpHandler

/-!
# The tunnel

The two ends of `tysocks`: `TCPServer` on the client's side and `S5Server` with its `Connector`s on
the server's. Each end has a list of handlers by connection id and sends messages into the tunnel,
which delivers them reliably and in order. The id of a connection is the client's file descriptor,
so an id comes back as soon as its socket is closed.

Every accepted connection has a number of its own (`owner`) that the program does not have. Handlers,
connectors and messages carry the number of the connection they are there for, and `log` records every
message that reached a handler.
-/

namespace Resend.Socks
open Handler

/-- A message on its way and the connection it is sent for. -/
structure Sent where
  msg : Message
  origin : Nat
deriving DecidableEq

/-- A handler in `conn_list`. -/
structure Entry where
  handler : TcpHandler
  owner : Nat

/-- A `Connector`, or a handler that is out of `conn_list` and has yet to send its last message. -/
structure Pending where
  connId : Nat
  owner : Nat
deriving DecidableEq

/-- A message for `origin` was handled by the handler of `owner`, as data or as the end. -/
structure Event where
  atClient : Bool
  close : Bool
  origin : Nat
  owner : Nat
deriving DecidableEq

/-- One end; `outbox` is what it has sent and the other end has not got. -/
structure Side where
  connList : Nat → Option Entry
  deleting : List Pending
  outbox : List Sent

namespace Side

def post (s : Side) (m : Sent) : Side := { s with outbox := s.outbox ++ [m] }

/-- `shutdown` of the handler in `conn_list[k]`; its socket is closed at once. -/
def shutdown (s : Side) (k : Nat) : Side :=
  match s.connList k with
  | none => s
  | some e =>
    { s with
      connList := Function.update s.connList k none
      deleting := s.deleting ++ [⟨k, e.owner⟩] }

/-- The rest of `~TCPHandler`: the message of four bytes. -/
def destroy (s : Side) (j : Nat) : Option Side :=
  s.deleting[j]?.map fun p => { s with deleting := s.deleting.eraseIdx j }.post
    ⟨⟨p.connId, []⟩, p.owner⟩

def effect (k owner : Nat) (s : Side) : Effect → Side
  | .send _ => s
  | .typrotoSend m => s.post ⟨m, owner⟩
  | .delete => s.shutdown k

/-- `read_cb` of the handler in `conn_list[k]`. -/
def read (s : Side) (k : Nat) (nread : Option (List UInt8)) (junk : Nat → UInt8) : Option Side :=
  (s.connList k).map fun e =>
    let r := exec (TcpHandler.readCb nread junk) e.handler
    -- a handler that is deleted stays in the list until the effect takes it out
    r.2.foldl (effect k e.owner)
      { s with
        connList :=
          Function.update s.connList k (some { e with handler := { r.1 with listed := true } }) }

/-- What both `on_data` do with a handler: an empty message ends it, anything else it sends on. -/
def handle (s : Side) (k : Nat) (m : Sent) (sendFails : Bool) : Side :=
  if m.msg.payload = [] ∨ sendFails then s.shutdown k else s

end Side

structure Tunnel where
  client : Side
  server : Side
  connectors : List Pending
  nextOwner : Nat
  log : List Event

namespace Tunnel

/-- `io_accept`. A descriptor is free only when `conn_list` has no handler for it. -/
def ioAccept (s : Tunnel) (clientSd : Nat) : Tunnel :=
  { s with
    client := { s.client with
      connList := Function.update s.client.connList clientSd (some ⟨.accepted clientSd, s.nextOwner⟩) }
    nextOwner := s.nextOwner + 1 }

/-- `TCPServer::on_data`. -/
def clientOnData (s : Tunnel) (m : Sent) (sendFails : Bool) : Tunnel :=
  if m.msg.connId < 0 then s
  else match s.client.connList m.msg.connId.toNat with
    | none => s
    | some e =>
      { s with
        client := s.client.handle m.msg.connId.toNat m sendFails
        log := s.log ++ [⟨true, m.msg.payload = [], m.origin, e.owner⟩] }

/-- `close_connection`. -/
def closeConnection (s : Tunnel) (id owner : Nat) : Tunnel :=
  { s with server := s.server.post ⟨⟨id, []⟩, owner⟩ }

/-- `S5Server::on_data`; `junk` is what stands behind a short message. -/
def serverOnData (s : Tunnel) (m : Sent) (junk : Nat → UInt8) (sendFails : Bool) : Tunnel :=
  let k := m.msg.connId.toNat
  if m.msg.connId < 0 then s
  else match s.server.connList k with
    | some e =>
      { s with
        server := s.server.handle k m sendFails
        log := s.log ++ [⟨false, m.msg.payload = [], m.origin, e.owner⟩] }
    | none =>
      if m.msg.payload.head? = some 0x05 then
        let atype := bufferAt m.msg.payload junk 3
        if bufferAt m.msg.payload junk 1 ≠ 0x01 then s.closeConnection k m.origin
        else if atype = 0x01 ∨ atype = 0x03 ∨ atype = 0x04 then
          { s with connectors := s.connectors ++ [⟨k, m.origin⟩] }
        else s.closeConnection k m.origin
      else s

/-- How a `Connector` ends. -/
inductive Outcome
  | noSocket
  | failed (status : UInt8)
  | connected
deriving DecidableEq

/-- `replyStatus`. -/
def replyStatus (s : Tunnel) (p : Pending) (status : UInt8) : Tunnel :=
  { s with server := s.server.post ⟨⟨p.connId, [0x05, status, 0, 0x01, 0, 0, 0, 0, 0, 0]⟩, p.owner⟩ }

/-- `createTCPHandler`. -/
def createTCPHandler (s : Tunnel) (p : Pending) : Tunnel :=
  let s := { s with server := s.server.shutdown p.connId }
  let s := s.replyStatus p 0x00
  { s with server := { s.server with
      connList := Function.update s.server.connList p.connId
        (some ⟨⟨p.connId, false, true⟩, p.owner⟩) } }

def connectorEnds (s : Tunnel) (p : Pending) : Outcome → Tunnel
  | .noSocket => s.closeConnection p.connId p.owner
  | .failed status => (s.replyStatus p status).closeConnection p.connId p.owner
  | .connected => s.createTCPHandler p

inductive Act
  | ioAccept (clientSd : Nat)
  | clientRead (k : Nat) (nread : Option (List UInt8)) (junk : Nat → UInt8)
  | clientDestroy (j : Nat)
  | clientOnData (sendFails : Bool)
  | serverOnData (junk : Nat → UInt8) (sendFails : Bool)
  | connector (j : Nat) (outcome : Outcome)
  | serverRead (k : Nat) (nread : Option (List UInt8)) (junk : Nat → UInt8)
  | serverDestroy (j : Nat)
  | control (fromClient : Bool) (m : Message)

def step (s : Tunnel) : Act → Option Tunnel
  | .ioAccept clientSd => if (s.client.connList clientSd).isNone then some (s.ioAccept clientSd)
    else none
  | .clientRead k nread junk => (s.client.read k nread junk).map fun c => { s with client := c }
  | .clientDestroy j => (s.client.destroy j).map fun c => { s with client := c }
  | .clientOnData sendFails =>
    match s.server.outbox with
    | [] => none
    | m :: rest => some ({ s with server := { s.server with outbox := rest } }.clientOnData m sendFails)
  | .serverOnData junk sendFails =>
    match s.client.outbox with
    | [] => none
    | m :: rest =>
      some ({ s with client := { s.client with outbox := rest } }.serverOnData m junk sendFails)
  | .connector j outcome =>
    s.connectors[j]?.map fun p =>
      { s with connectors := s.connectors.eraseIdx j }.connectorEnds p outcome
  | .serverRead k nread junk => (s.server.read k nread junk).map fun v => { s with server := v }
  | .serverDestroy j => (s.server.destroy j).map fun v => { s with server := v }
  -- heartbeats and socket options have negative ids
  | .control fromClient m =>
    if m.connId < 0 then
      some (if fromClient then { s with client := s.client.post ⟨m, 0⟩ }
        else { s with server := s.server.post ⟨m, 0⟩ })
    else none

def start : Tunnel := ⟨⟨fun _ => none, [], []⟩, ⟨fun _ => none, [], []⟩, [], 0, []⟩

def machine : Machine Tunnel Act where
  init s := s = start
  step := step

end Tunnel

end Resend.Socks
