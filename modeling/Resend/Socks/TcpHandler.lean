import Resend.Lib.Handler

/-!
# The socket side of the tunnel

`TCPHandler` of `tysocks` stands between one TCP socket and the tunnel. This is its reading half:
what `read_cb` does with one result of `recv`. A result fills the front of a buffer fresh from
`malloc`, and the handshake looks at whole buffers, so what stands behind the result (`junk`) is
part of the input.
-/

namespace Resend.Socks
open Handler

/-- A message in the tunnel: four bytes for the connection, then what was read from its socket. -/
structure Message where
  connId : Int
  payload : List UInt8
deriving DecidableEq, Repr

/-- What `read_cb` uses of a `TCPHandler`; `listed` says that `conn_list[conn_id]` is this handler. -/
structure TcpHandler where
  connId : Int
  needSocks5Handshake : Bool
  listed : Bool
deriving DecidableEq, Repr

inductive Effect
  | send (data : List UInt8)
  | typrotoSend (m : Message)
  | delete
deriving DecidableEq

/-- The byte of the buffer at `sp + i`. -/
def bufferAt (data : List UInt8) (junk : Nat → UInt8) (i : Nat) : UInt8 := data.getD i (junk i)

namespace TcpHandler

/-- `shutdown`: only the call that takes the handler out of `conn_list` deletes it. -/
def shutdown : Handler TcpHandler Effect Unit := do
  let h ← get
  when (h.listed = true) do
    modify fun h => { h with listed := false }
    emit .delete

/-- The loop of `read_cb` over the methods of a greeting. -/
def acceptsMethod (data : List UInt8) (junk : Nat → UInt8) : Bool :=
  (List.range (bufferAt data junk 1).toNat).any fun i => bufferAt data junk (2 + i) = 0x00

/-- `read_cb` when `recv` has failed (`none`) or has read `data`. -/
def readCb (nread : Option (List UInt8)) (junk : Nat → UInt8) : Handler TcpHandler Effect Unit :=
  match nread with
  | none => pure ()
  | some [] => shutdown
  | some data => do
    let h ← get
    if h.needSocks5Handshake = true ∧ bufferAt data junk 0 = 0x05 then
      modify fun h => { h with needSocks5Handshake := false }
      emit (.send [0x05, if acceptsMethod data junk then 0x00 else 0xFF])
      when (acceptsMethod data junk = false) shutdown
    else emit (.typrotoSend ⟨h.connId, data⟩)

section rules
variable {Q : Unit → TcpHandler → List Effect → Prop} {h : TcpHandler}

theorem wp_shutdown :
    wp shutdown Q h ↔ if h.listed = true then Q () { h with listed := false } [.delete]
      else Q () h [] := by
  rw [shutdown, wp_bind, wp_get, wp_when]
  exact Iff.rfl

theorem wp_readCb {data : List UInt8} (hd : data ≠ []) (hl : h.listed = true) (junk : Nat → UInt8) :
    wp (readCb (some data) junk) Q h ↔
      if h.needSocks5Handshake = true ∧ bufferAt data junk 0 = 0x05 then
        if acceptsMethod data junk then
          Q () { h with needSocks5Handshake := false } [.send [0x05, 0x00]]
        else Q () { h with needSocks5Handshake := false, listed := false } [.send [0x05, 0xFF], .delete]
      else Q () h [.typrotoSend ⟨h.connId, data⟩] := by
  obtain ⟨b, data, rfl⟩ := List.exists_cons_of_ne_nil hd
  simp only [readCb, wp_bind, wp_get, wp_ite, wp_modify, wp_emit, wp_when, wp_shutdown]
  cases acceptsMethod (b :: data) junk <;> simp [hl]

end rules

/-- `read_cb` once for each of `chunks`, as long as there is a handler; `junk n` is what the buffer
of the `n`th call holds. -/
def readAll (junk : Nat → Nat → UInt8) : List (List UInt8) → Handler TcpHandler Effect Unit
  | [] => pure ()
  | data :: chunks => do
    let h ← get
    when (h.listed = true) (readCb (some data) (junk 0))
    readAll (fun n => junk (n + 1)) chunks

/-- The handler `io_accept` makes for a local program. -/
def accepted (clientSd : Nat) : TcpHandler := ⟨clientSd, true, true⟩

end TcpHandler

end Resend.Socks
