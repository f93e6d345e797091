import Resend.Socks.TcpHandler

/-!
# What `S5Server` reads of a message

`S5Server::on_data` takes the connection id, the address type and the length of a domain from the
message and goes on from there; it looks at `len` only to see whether the message is a close. What
it reads and what it starts is recorded, for messages of every length, with arbitrary memory
(`junk`) behind them.
-/

namespace Resend.Socks
open Handler

/-- A message in the buffer of the receiver. -/
structure Packet where
  data : List UInt8
  junk : Nat → UInt8

/-- The address of a request. -/
inductive Address
  | ipv4 (addr : List UInt8)
  | domain (name : List UInt8)
  | ipv6 (addr : List UInt8)
deriving DecidableEq

/-- An address and the two bytes of its port. -/
structure Request where
  address : Address
  port : List UInt8
deriving DecidableEq

structure SockOpt where
  windowSize : Int
  resendDelay : Int
  speedLimit : Int
  ackSendDelay : Int
  sackSendDelay : Int
  sackThreshold : Int
  maxResendTimeout : Int
deriving DecidableEq

/-- What `on_data` does: it reads a byte or an entry of `conn_list`, or calls something. -/
inductive Access
  | byte (i : Nat)
  | entry (k : Nat)
  | applySockOpt (o : SockOpt)
  | shutdown (k : Nat)
  | send (k : Nat) (data : List UInt8)
  | closeConnection (k : Nat)
  | connect (k : Nat) (r : Request)
deriving DecidableEq

namespace Access

def byte? : Access → Option Nat
  | byte i => some i
  | _ => none

def entry? : Access → Option Nat
  | entry k => some k
  | _ => none

def connect? : Access → Option (Nat × Request)
  | connect k r => some (k, r)
  | _ => none

end Access

/-- Four bytes as an `int`. -/
def toInt (bs : List UInt8) : Int :=
  let n : Nat := bs.foldr (fun b n => b.toNat + 256 * n) 0
  if n < 2 ^ 31 then n else (n : Int) - 2 ^ 32

namespace Packet

def buf (p : Packet) (i : Nat) : UInt8 := bufferAt p.data p.junk i

def len (p : Packet) : Nat := p.data.length

def readByte (p : Packet) (i : Nat) : Handler Unit Access UInt8 := do
  emit (.byte i)
  pure (p.buf i)

def readBytes (p : Packet) (i : Nat) : Nat → Handler Unit Access (List UInt8)
  | 0 => pure []
  | n + 1 => do
    let b ← p.readByte i
    let bs ← p.readBytes (i + 1) n
    pure (b :: bs)

def readInt (p : Packet) (i : Nat) : Handler Unit Access Int := do
  let bs ← p.readBytes i 4
  pure (toInt bs)

/-- `apply_sock_opt`. -/
def applySockOpt (p : Packet) : Handler Unit Access Unit := do
  let winsize ← p.readInt 4
  let rsnddelay ← p.readInt 8
  let speedlimit ← p.readInt 12
  let ackdelay ← p.readInt 16
  let sackdelay ← p.readInt 20
  let sackthreshold ← p.readInt 24
  let resendTimeout ← p.readInt 28
  emit (.applySockOpt ⟨winsize, rsnddelay, speedlimit, ackdelay, sackdelay,
    sackthreshold, resendTimeout⟩)

/-- `process_control_packet`. -/
def processControlPacket (p : Packet) : Handler Unit Access Unit := do
  let b0 ← p.readByte 0
  when (b0 = 0x43) do
    let b1 ← p.readByte 1
    when (b1 = 0x46) do
      let b2 ← p.readByte 2
      when (b2 = 0x47) p.applySockOpt

/-- `Connector::connectV4` of the connection `k`, with the address at `addrptr`. -/
def connectV4 (p : Packet) (k addrptr : Nat) (port : List UInt8) : Handler Unit Access Unit := do
  let addr ← p.readBytes addrptr 4
  emit (.connect k ⟨.ipv4 addr, port⟩)

def connectV6 (p : Packet) (k addrptr : Nat) (port : List UInt8) : Handler Unit Access Unit := do
  let addr ← p.readBytes addrptr 16
  emit (.connect k ⟨.ipv6 addr, port⟩)

def connectDomain (p : Packet) (k domain len : Nat) (port : List UInt8) : Handler Unit Access Unit := do
  let name ← p.readBytes domain len
  emit (.connect k ⟨.domain name, port⟩)

def sp : Nat := 4

/-- The request of a connection without a handler. -/
def handshake (p : Packet) (k : Nat) : Handler Unit Access Unit := do
  let cmd ← p.readByte (sp + 1)
  if cmd ≠ 0x01 then emit (.closeConnection k)
  else do
    let atype ← p.readByte (sp + 3)
    if atype = 0x01 then do
      let port ← p.readBytes (sp + 8) 2
      p.connectV4 k (sp + 4) port
    else if atype = 0x03 then do
      let domainlen ← p.readByte (sp + 4)
      let port ← p.readBytes (sp + 5 + domainlen.toNat) 2
      p.connectDomain k (sp + 5) domainlen.toNat port
    else if atype = 0x04 then do
      let port ← p.readBytes (sp + 20) 2
      p.connectV6 k (sp + 4) port
    else emit (.closeConnection k)

/-- `on_data`; `connList k` says whether `conn_list[k]` is set. -/
def onData (p : Packet) (connList : Nat → Bool) : Handler Unit Access Unit := do
  let connId ← p.readInt 0
  if connId < 0 then p.processControlPacket
  else do
    emit (.entry connId.toNat)
    if p.len = sp then when (connList connId.toNat = true) (emit (.shutdown connId.toNat))
    else if connList connId.toNat = true then do
      let data ← p.readBytes sp (p.len - sp)
      emit (.send connId.toNat data)
    else do
      let ver ← p.readByte sp
      when (ver = 0x05) (p.handshake connId.toNat)

/-- All that `on_data` does with a message. -/
def accesses (p : Packet) (connList : Nat → Bool) : List Access := (exec (p.onData connList) ()).2

end Packet

/-! ### Requests -/

namespace Request

/-- The message a request is sent in; the reserved byte is not looked at. -/
def bytes (r : Request) (rsv : UInt8) : List UInt8 :=
  [0x05, 0x01, rsv] ++
    (match r.address with
     | .ipv4 addr => 0x01 :: addr
     | .domain name => 0x03 :: UInt8.ofNat name.length :: name
     | .ipv6 addr => 0x04 :: addr) ++ r.port

structure WellFormed (r : Request) : Prop where
  port : r.port.length = 2
  address : match r.address with
    | .ipv4 addr => addr.length = 4
    | .domain name => name.length < 256
    | .ipv6 addr => addr.length = 16

/-- The payload is just this request. -/
def Is (r : Request) (payload : List UInt8) : Prop := r.WellFormed ∧ ∃ rsv, payload = r.bytes rsv

section is
variable {r : Request} {rsv atype : UInt8} {rest payload : List UInt8}

theorem is_start (h : r.Is payload) : ∃ rsv atype rest, payload = 0x05 :: 0x01 :: rsv :: atype :: rest ∧
    (atype = 0x01 ∨ atype = 0x03 ∨ atype = 0x04) := by
  obtain ⟨-, rsv, rfl⟩ := h
  unfold bytes
  cases r.address with
  | ipv4 addr => exact ⟨rsv, 0x01, addr ++ r.port, rfl, .inl rfl⟩
  | domain name => exact ⟨rsv, 0x03, _, rfl, .inr (.inl rfl)⟩
  | ipv6 addr => exact ⟨rsv, 0x04, addr ++ r.port, rfl, .inr (.inr rfl)⟩

theorem is_ipv4_iff : r.Is (0x05 :: 0x01 :: rsv :: 0x01 :: rest) ↔
    rest.length = 6 ∧ r = ⟨.ipv4 (rest.take 4), rest.drop 4⟩ := by
  constructor
  · rintro ⟨hwf, rsv', hr⟩
    obtain ⟨address, port⟩ := r
    obtain ⟨hport, haddr⟩ := hwf
    cases address with
    | ipv4 addr =>
      simp only [bytes, List.cons_append, List.nil_append, List.cons.injEq, true_and] at hr haddr hport
      obtain ⟨-, rfl⟩ := hr
      simp [haddr, hport]
    | domain name => simp [bytes] at hr
    | ipv6 addr => simp [bytes] at hr
  · rintro ⟨hlen, rfl⟩
    refine ⟨⟨?_, ?_⟩, rsv, ?_⟩
    · simp [hlen]
    · simp [hlen]
    · simp [bytes]

theorem is_ipv6_iff : r.Is (0x05 :: 0x01 :: rsv :: 0x04 :: rest) ↔
    rest.length = 18 ∧ r = ⟨.ipv6 (rest.take 16), rest.drop 16⟩ := by
  constructor
  · rintro ⟨hwf, rsv', hr⟩
    obtain ⟨address, port⟩ := r
    obtain ⟨hport, haddr⟩ := hwf
    cases address with
    | ipv4 addr => simp [bytes] at hr
    | domain name => simp [bytes] at hr
    | ipv6 addr =>
      simp only [bytes, List.cons_append, List.nil_append, List.cons.injEq, true_and] at hr haddr hport
      obtain ⟨-, rfl⟩ := hr
      simp [haddr, hport]
  · rintro ⟨hlen, rfl⟩
    refine ⟨⟨?_, ?_⟩, rsv, ?_⟩
    · simp [hlen]
    · simp [hlen]
    · simp [bytes]

theorem is_domain_iff {n : UInt8} : r.Is (0x05 :: 0x01 :: rsv :: 0x03 :: n :: rest) ↔
    rest.length = n.toNat + 2 ∧ r = ⟨.domain (rest.take n.toNat), rest.drop n.toNat⟩ := by
  constructor
  · rintro ⟨hwf, rsv', hr⟩
    obtain ⟨address, port⟩ := r
    obtain ⟨hport, haddr⟩ := hwf
    cases address with
    | ipv4 addr => simp [bytes] at hr
    | domain name =>
      simp only [bytes, List.cons_append, List.nil_append, List.cons.injEq, true_and] at hr haddr hport
      obtain ⟨-, rfl, rfl⟩ := hr
      have hn : (UInt8.ofNat name.length).toNat = name.length := by
        rw [UInt8.toNat_ofNat']
        exact Nat.mod_eq_of_lt haddr
      simp [hn, hport]
    | ipv6 addr => simp [bytes] at hr
  · rintro ⟨hlen, rfl⟩
    have hn := n.toNat_lt
    have htake : (rest.take n.toNat).length = n.toNat := by simp [hlen]
    refine ⟨⟨?_, ?_⟩, rsv, ?_⟩
    · simp [hlen]
    · show (rest.take n.toNat).length < 256
      omega
    · simp only [bytes, htake]
      simp

end is

end Request

namespace Packet

def connId (p : Packet) : Int := toInt ((List.range' 0 4).map p.buf)

/-- Only bytes of the message and entries of the list are read, and a Connector is started just for
a connection that has no handler and sends a request, with what the request says. -/
structure Parsed (p : Packet) (maxConn : Nat) (connList : Nat → Bool) : Prop where
  bytes : ∀ i ∈ (p.accesses connList).filterMap Access.byte?, i < p.len
  entries : ∀ k ∈ (p.accesses connList).filterMap Access.entry?, k < maxConn
  starts : ∀ k r, (k, r) ∈ (p.accesses connList).filterMap Access.connect? ↔
    p.connId = k ∧ connList k = false ∧ r.Is (p.data.drop 4)
  once : ((p.accesses connList).filterMap Access.connect?).length ≤ 1

/-- The lengths that `on_data` takes for granted. -/
structure Fits (p : Packet) (maxConn : Nat) (connList : Nat → Bool) : Prop where
  id : 4 ≤ p.len
  control : p.connId < 0 → p.buf 0 = 0x43 → p.buf 1 = 0x46 → p.buf 2 = 0x47 → 32 ≤ p.len
  entry : 0 ≤ p.connId → p.connId < maxConn
  request : 0 ≤ p.connId → connList p.connId.toNat = false → p.len ≠ 4 → p.buf 4 = 0x05 →
    6 ≤ p.len ∧ (p.buf 5 = 0x01 → 8 ≤ p.len ∧
      (p.buf 7 = 0x01 → p.len = 14) ∧ (p.buf 7 = 0x03 → 9 ≤ p.len ∧ p.len = 11 + (p.buf 8).toNat) ∧
      (p.buf 7 = 0x04 → p.len = 26))

section rules
variable {p : Packet} {i n : Nat}

@[simp] theorem wp_readByte {Q : UInt8 → Unit → List Access → Prop} :
    wp (p.readByte i) Q () ↔ Q (p.buf i) () [.byte i] :=
  Iff.rfl

@[simp] theorem wp_readBytes {Q : List UInt8 → Unit → List Access → Prop} :
    wp (p.readBytes i n) Q () ↔ Q ((List.range' i n).map p.buf) () ((List.range' i n).map .byte) := by
  induction n generalizing i Q with
  | zero => exact Iff.rfl
  | succ n ih =>
    rw [readBytes, wp_bind, wp_readByte, wp_bind, ih, wp_pure, List.append_nil, List.range'_succ]
    exact Iff.rfl

@[simp] theorem wp_readInt {Q : Int → Unit → List Access → Prop} :
    wp (p.readInt i) Q () ↔
      Q (toInt ((List.range' i 4).map p.buf)) () ((List.range' i 4).map .byte) := by
  rw [readInt, wp_bind, wp_readBytes, wp_pure, List.append_nil]

theorem wp_connId {Q : Int → Unit → List Access → Prop} :
    wp (p.readInt 0) Q () ↔ Q p.connId () ((List.range' 0 4).map .byte) :=
  wp_readInt

theorem map_buf (h : i + n ≤ p.len) : (List.range' i n).map p.buf = (p.data.drop i).take n := by
  refine List.ext_getElem
    (by
      simp only [List.length_map, List.length_range', List.length_take, List.length_drop, len] at *
      omega) fun j h₁ h₂ => ?_
  simp only [List.length_map, List.length_range'] at h₁
  have hj : i + j < p.data.length := by unfold len at h; omega
  simp [buf, bufferAt, hj]

theorem map_buf_rest (h : i + n = p.len) : (List.range' i n).map p.buf = p.data.drop i := by
  rw [map_buf h.le, List.take_of_length_le]
  rw [List.length_drop, ← len]
  omega

theorem drop_eq (h : i < p.len) : p.data.drop i = p.buf i :: p.data.drop (i + 1) := by
  rw [List.drop_eq_getElem_cons h, buf, bufferAt, List.getD_eq_getElem?_getD,
    List.getElem?_eq_getElem h, Option.getD_some]

end rules

/-! ### What is read and what is started -/

section accesses
variable {p : Packet} {maxConn : Nat} {connList : Nat → Bool} {k : Nat}

theorem byte?_bytes (i n : Nat) :
    ((List.range' i n).map Access.byte).filterMap Access.byte? = List.range' i n := by
  rw [List.filterMap_map]
  exact List.filterMap_some

theorem entry?_bytes (i n : Nat) :
    ((List.range' i n).map Access.byte).filterMap Access.entry? = [] := by
  rw [List.filterMap_map]
  exact List.filterMap_eq_nil_iff.2 fun _ _ => rfl

theorem connect?_bytes (i n : Nat) :
    ((List.range' i n).map Access.byte).filterMap Access.connect? = [] := by
  rw [List.filterMap_map]
  exact List.filterMap_eq_nil_iff.2 fun _ _ => rfl

/-- The part of a message that is neither an end nor for a handler. -/
def started (p : Packet) (k : Nat) : List Access :=
  .byte 5 ::
    if p.buf 5 ≠ 0x01 then [.closeConnection k]
    else .byte 7 ::
      if p.buf 7 = 0x01 then (List.range' 12 2).map .byte ++ ((List.range' 8 4).map .byte ++
        [.connect k ⟨.ipv4 ((List.range' 8 4).map p.buf), (List.range' 12 2).map p.buf⟩])
      else if p.buf 7 = 0x03 then
        .byte 8 :: ((List.range' (9 + (p.buf 8).toNat) 2).map .byte ++
          ((List.range' 9 (p.buf 8).toNat).map .byte ++
            [.connect k ⟨.domain ((List.range' 9 (p.buf 8).toNat).map p.buf),
              (List.range' (9 + (p.buf 8).toNat) 2).map p.buf⟩]))
      else if p.buf 7 = 0x04 then (List.range' 24 2).map .byte ++ ((List.range' 8 16).map .byte ++
        [.connect k ⟨.ipv6 ((List.range' 8 16).map p.buf), (List.range' 24 2).map p.buf⟩])
      else [.closeConnection k]

theorem wp_handshake {Q : List Access → Prop} :
    wp (p.handshake k) (fun _ _ es => Q es) () ↔ Q (p.started k) := by
  simp only [handshake, connectV4, connectV6, connectDomain, sp, wp_bind, wp_ite, wp_readByte,
    wp_readBytes, wp_emit, started]
  split
  · rfl
  · split
    · rfl
    · split
      · rfl
      · split <;> rfl

/-- What is done with a message for the server itself. -/
def controlled (p : Packet) : List Access :=
  .byte 0 ::
    if p.buf 0 = 0x43 then .byte 1 ::
      if p.buf 1 = 0x46 then .byte 2 ::
        if p.buf 2 = 0x47 then (exec p.applySockOpt ()).2 else []
      else []
    else []

theorem wp_processControlPacket {Q : List Access → Prop} :
    wp p.processControlPacket (fun _ _ es => Q es) () ↔ Q p.controlled := by
  simp only [processControlPacket, wp_bind, wp_when, wp_readByte, controlled]
  split
  · split
    · split <;> rfl
    · rfl
  · rfl

theorem applySockOpt_eq :
    ∃ o, (exec p.applySockOpt ()).2 = (List.range' 4 28).map .byte ++ [.applySockOpt o] := by
  show wp p.applySockOpt (fun _ _ es =>
    ∃ o, es = (List.range' 4 28).map Access.byte ++ [.applySockOpt o]) ()
  simp only [applySockOpt, wp_bind, wp_readInt, wp_emit]
  exact ⟨_, rfl⟩

/-- All that is done after the id has been read. -/
def handled (p : Packet) (connList : Nat → Bool) : List Access :=
  if p.connId < 0 then p.controlled
  else .entry p.connId.toNat ::
    if p.len = 4 then (if connList p.connId.toNat = true then [.shutdown p.connId.toNat] else [])
    else if connList p.connId.toNat = true then
      (List.range' 4 (p.len - 4)).map .byte ++
        [.send p.connId.toNat ((List.range' 4 (p.len - 4)).map p.buf)]
    else .byte 4 :: if p.buf 4 = 0x05 then p.started p.connId.toNat else []

theorem accesses_eq (p : Packet) (connList : Nat → Bool) :
    p.accesses connList = (List.range' 0 4).map .byte ++ p.handled connList := by
  refine wp_exec (P := fun _ es => es = (List.range' 0 4).map Access.byte ++ p.handled connList)
    (p.onData connList) ?_
  rw [onData, wp_bind, wp_connId, wp_ite, handled]
  by_cases hid : p.connId < 0
  · rw [if_pos hid, if_pos hid]
    exact wp_processControlPacket (Q := fun es => _ ++ es = _ ++ p.controlled).2 rfl
  rw [if_neg hid, if_neg hid, wp_bind, wp_emit, wp_ite, show (sp : Nat) = 4 from rfl]
  by_cases hlen : p.len = 4
  · rw [if_pos hlen, if_pos hlen, wp_when, wp_emit]
    split <;> rfl
  rw [if_neg hlen, if_neg hlen, wp_ite]
  by_cases hlist : connList p.connId.toNat = true
  · rw [if_pos hlist, if_pos hlist, wp_bind, wp_readBytes, wp_emit]
    rfl
  rw [if_neg hlist, if_neg hlist, wp_bind, wp_readByte, wp_when]
  by_cases hver : p.buf 4 = 0x05
  · rw [if_pos hver, if_pos hver]
    exact wp_handshake (Q := fun es => _ ++ (_ ++ (_ ++ es)) = _ ++ _ :: _ :: p.started _).2 rfl
  · rw [if_neg hver, if_neg hver]
    rfl

/-! ### The lengths -/

theorem forall_mem_range'_lt {i n b : Nat} : (∀ j ∈ List.range' i n, j < b) ↔ n = 0 ∨ i + n ≤ b := by
  simp only [List.mem_range'_1]
  constructor
  · intro h
    rcases Nat.eq_zero_or_pos n with hn | hn
    · exact .inl hn
    · have := h (i + n - 1) ⟨by omega, by omega⟩
      omega
  · rintro h j hj
    omega

theorem forall_controlled_lt (h : 4 ≤ p.len) : (∀ i ∈ p.controlled.filterMap Access.byte?, i < p.len) ↔
    (p.buf 0 = 0x43 → p.buf 1 = 0x46 → p.buf 2 = 0x47 → 32 ≤ p.len) := by
  obtain ⟨o, ho⟩ := applySockOpt_eq (p := p)
  unfold controlled
  rw [ho]
  by_cases h0 : p.buf 0 = 0x43 <;> by_cases h1 : p.buf 1 = 0x46 <;> by_cases h2 : p.buf 2 = 0x47 <;>
    simp only [h0, h1, h2, if_true, if_false, List.filterMap_cons, List.filterMap_append,
      List.filterMap_nil, byte?_bytes, Access.byte?, List.append_nil, List.forall_mem_cons,
      forall_mem_range'_lt] <;>
    simp <;> omega

theorem forall_stretches_lt {i n j m b : Nat} {r : Request} :
    (∀ x ∈ ((List.range' i n).map Access.byte ++
      ((List.range' j m).map Access.byte ++ [Access.connect k r])).filterMap Access.byte?,
      x < b) ↔ (n = 0 ∨ i + n ≤ b) ∧ (m = 0 ∨ j + m ≤ b) := by
  rw [List.filterMap_append, List.filterMap_append, byte?_bytes, byte?_bytes,
    List.forall_mem_append, List.forall_mem_append, forall_mem_range'_lt, forall_mem_range'_lt]
  exact and_congr_right' (and_iff_left fun x (hx : x ∈ []) => absurd hx List.not_mem_nil)

theorem connect?_stretches {i n j m : Nat} {r : Request} :
    ((List.range' i n).map Access.byte ++
      ((List.range' j m).map Access.byte ++ [Access.connect k r])).filterMap
      Access.connect? =
      [(k, r)] := by
  rw [List.filterMap_append, List.filterMap_append, connect?_bytes, connect?_bytes]
  rfl

theorem entry?_stretches {i n j m : Nat} {r : Request} :
    ((List.range' i n).map Access.byte ++
      ((List.range' j m).map Access.byte ++ [Access.connect k r])).filterMap
      Access.entry? = [] := by
  rw [List.filterMap_append, List.filterMap_append, entry?_bytes, entry?_bytes]
  rfl

theorem forall_started_lt : (∀ i ∈ (p.started k).filterMap Access.byte?, i < p.len) ↔
    6 ≤ p.len ∧ (p.buf 5 = 0x01 → 8 ≤ p.len ∧ (p.buf 7 = 0x01 → 14 ≤ p.len) ∧
      (p.buf 7 = 0x03 → 9 ≤ p.len ∧ 11 + (p.buf 8).toNat ≤ p.len) ∧ (p.buf 7 = 0x04 → 26 ≤ p.len)) := by
  unfold started
  by_cases h5 : p.buf 5 = 0x01
  · rw [if_neg (not_ne_iff.2 h5)]
    simp only [List.filterMap_cons, Access.byte?, List.forall_mem_cons, h5, true_implies]
    by_cases h1 : p.buf 7 = 0x01
    · rw [if_pos h1, forall_stretches_lt, h1]
      simp
      omega
    by_cases h3 : p.buf 7 = 0x03
    · rw [if_neg h1, if_pos h3, h3]
      simp only [List.filterMap_cons, Access.byte?, List.forall_mem_cons, forall_stretches_lt]
      simp
      omega
    by_cases h4 : p.buf 7 = 0x04
    · rw [if_neg h1, if_neg h3, if_pos h4, forall_stretches_lt, h4]
      simp
      omega
    · simp [h1, h3, h4, Access.byte?]
      omega
  · simp [h5, Access.byte?]
    omega

theorem singleton_iff {L : Prop} {r r' : Request} (h : L → r = r') :
    (∀ k' x, (k', x) ∈ [(k, r)] ↔ k = k' ∧ L ∧ x = r') ↔ L := by
  simp only [List.mem_singleton, Prod.mk.injEq]
  constructor
  · intro hall
    exact ((hall k r).1 ⟨rfl, rfl⟩).2.1
  · intro hL k' x
    rw [h hL, eq_comm (a := k')]
    exact and_congr_right' (and_iff_right hL).symm

theorem started_connect_iff (hlen : 5 ≤ p.len) (hver : p.buf 4 = 0x05)
    (h : ∀ i ∈ (p.started k).filterMap Access.byte?, i < p.len) :
    (∀ k' r, (k', r) ∈ (p.started k).filterMap Access.connect? ↔ k = k' ∧ r.Is (p.data.drop 4)) ↔
    (p.buf 5 = 0x01 → (p.buf 7 = 0x01 → p.len = 14) ∧ (p.buf 7 = 0x03 → p.len = 11 + (p.buf 8).toNat) ∧
      (p.buf 7 = 0x04 → p.len = 26)) := by
  have hdata : p.data.drop 4 = 0x05 :: p.data.drop 5 := by rw [drop_eq (by omega), hver]
  have hrest : ∀ i, (p.data.drop i).length = p.len - i := fun i => List.length_drop
  rw [forall_started_lt] at h
  obtain ⟨h6, h⟩ := h
  rw [drop_eq (i := 5) (by omega)] at hdata
  unfold started
  by_cases h5 : p.buf 5 = 0x01
  · obtain ⟨h8, hv4, hname, hv6⟩ := h h5
    rw [h5, drop_eq (i := 6) (by omega), drop_eq (i := 7) (by omega)] at hdata
    rw [if_neg (not_ne_iff.2 h5)]
    simp only [List.filterMap_cons, Access.connect?, h5, true_implies]
    by_cases h1 : p.buf 7 = 0x01
    · have hlen := hv4 h1
      rw [h1] at hdata
      rw [if_pos h1, connect?_stretches, hdata, h1]
      simp only [Request.is_ipv4_iff]
      rw [singleton_iff, hrest]
      · simp
        omega
      · intro hsix
        rw [hrest] at hsix
        rw [map_buf (by omega), map_buf_rest (by omega), List.drop_drop]
    by_cases h3 : p.buf 7 = 0x03
    · obtain ⟨h9, hlen⟩ := hname h3
      rw [h3, drop_eq (i := 8) (by omega)] at hdata
      rw [if_neg h1, if_pos h3, hdata, h3]
      simp only [List.filterMap_cons, Access.connect?, connect?_stretches, Request.is_domain_iff]
      rw [singleton_iff, hrest]
      · simp
        omega
      · intro hname
        rw [hrest] at hname
        rw [map_buf (by omega), map_buf_rest (by omega), List.drop_drop]
    by_cases h4 : p.buf 7 = 0x04
    · have hlen := hv6 h4
      rw [h4] at hdata
      rw [if_neg h1, if_neg h3, if_pos h4, connect?_stretches, hdata, h4]
      simp only [Request.is_ipv6_iff]
      rw [singleton_iff, hrest]
      · simp
        omega
      · intro hsix
        rw [hrest] at hsix
        rw [map_buf (by omega), map_buf_rest (by omega), List.drop_drop]
    · simp only [h1, h3, h4, if_false, List.filterMap_cons, List.filterMap_nil, Access.connect?,
        List.not_mem_nil, false_iff, false_implies, and_true, iff_true, not_and]
      intro k' r _ hr
      obtain ⟨rsv, atype, rest, hr, hatype⟩ := Request.is_start hr
      rw [hdata] at hr
      simp only [List.cons.injEq, true_and] at hr
      rw [← hr.2.1] at hatype
      rcases hatype with hatype | hatype | hatype
      exacts [h1 hatype, h3 hatype, h4 hatype]
  · simp only [h5, ne_eq, not_false_eq_true, if_true, List.filterMap_cons,
      List.filterMap_nil, Access.connect?, List.not_mem_nil, false_iff,
      false_implies, iff_true, not_and]
    intro k' r _ hr
    obtain ⟨rsv, atype, rest, hr, -⟩ := Request.is_start hr
    rw [hdata] at hr
    simp only [List.cons.injEq] at hr
    exact h5 hr.2.1

theorem length_started_connect : ((p.started k).filterMap Access.connect?).length ≤ 1 := by
  unfold started
  simp only [List.filterMap_cons, Access.connect?]
  split
  · exact Nat.zero_le 1
  simp only [List.filterMap_cons, Access.connect?]
  split
  · rw [connect?_stretches]
    exact le_rfl
  split
  · simp only [List.filterMap_cons, Access.connect?]
    rw [connect?_stretches]
    exact le_rfl
  split
  · rw [connect?_stretches]
    exact le_rfl
  · exact Nat.zero_le 1

theorem controlled_silent :
    p.controlled.filterMap Access.entry? = [] ∧ p.controlled.filterMap Access.connect? = [] := by
  obtain ⟨o, ho⟩ := applySockOpt_eq (p := p)
  unfold controlled
  rw [ho]
  simp only [List.filterMap_cons, Access.entry?, Access.connect?]
  constructor <;> split
  · simp only [List.filterMap_cons, Access.entry?]
    split
    · simp only [List.filterMap_cons, Access.entry?]
      split
      · rw [List.filterMap_append, entry?_bytes]
        rfl
      · rfl
    · rfl
  · rfl
  · simp only [List.filterMap_cons, Access.connect?]
    split
    · simp only [List.filterMap_cons, Access.connect?]
      split
      · rw [List.filterMap_append, connect?_bytes]
        rfl
      · rfl
    · rfl
  · rfl

theorem started_entry : (p.started k).filterMap Access.entry? = [] := by
  unfold started
  simp only [List.filterMap_cons, Access.entry?]
  split
  · rfl
  simp only [List.filterMap_cons, Access.entry?]
  split
  · exact entry?_stretches
  split
  · simp only [List.filterMap_cons, Access.entry?]
    exact entry?_stretches
  split
  · exact entry?_stretches
  · rfl

/-- `Parsed` over what is done after the id has been read. -/
theorem parsed_iff_handled : p.Parsed maxConn connList ↔ 4 ≤ p.len ∧
    (∀ i ∈ (p.handled connList).filterMap Access.byte?, i < p.len) ∧
    (∀ k ∈ (p.handled connList).filterMap Access.entry?, k < maxConn) ∧
    (∀ k r, (k, r) ∈ (p.handled connList).filterMap Access.connect? ↔
      p.connId = (k : Int) ∧ connList k = false ∧ r.Is (p.data.drop 4)) ∧
    ((p.handled connList).filterMap Access.connect?).length ≤ 1 := by
  have hbytes : (∀ i ∈ (p.accesses connList).filterMap Access.byte?, i < p.len) ↔
      4 ≤ p.len ∧ ∀ i ∈ (p.handled connList).filterMap Access.byte?, i < p.len := by
    rw [accesses_eq, List.filterMap_append, byte?_bytes, List.forall_mem_append, forall_mem_range'_lt]
    simp
  have hentries : (p.accesses connList).filterMap Access.entry? =
      (p.handled connList).filterMap Access.entry? := by
    rw [accesses_eq, List.filterMap_append, entry?_bytes, List.nil_append]
  have hconnects : (p.accesses connList).filterMap Access.connect? =
      (p.handled connList).filterMap Access.connect? := by
    rw [accesses_eq, List.filterMap_append, connect?_bytes, List.nil_append]
  rw [← and_assoc, ← hbytes, ← hentries, ← hconnects]
  exact ⟨fun h => ⟨h.bytes, h.entries, h.starts, h.once⟩, fun h => ⟨h.1, h.2.1, h.2.2.1, h.2.2.2⟩⟩

theorem not_is_of_ver (h : p.len = 4 ∨ (5 ≤ p.len ∧ p.buf 4 ≠ 0x05)) (r : Request) :
    ¬ r.Is (p.data.drop 4) := by
  intro hr
  obtain ⟨rsv, atype, rest, hr, -⟩ := Request.is_start hr
  rcases h with h | ⟨h, hver⟩
  · have hlen := congrArg List.length hr
    rw [List.length_drop, ← len, h] at hlen
    cases hlen
  · rw [drop_eq (by omega)] at hr
    exact hver (List.cons.inj hr).1

/-- The lengths of a request, as `Fits.request` has them. -/
def RequestFits (p : Packet) : Prop :=
  6 ≤ p.len ∧ (p.buf 5 = 0x01 → 8 ≤ p.len ∧
    (p.buf 7 = 0x01 → p.len = 14) ∧ (p.buf 7 = 0x03 → 9 ≤ p.len ∧ p.len = 11 + (p.buf 8).toNat) ∧
    (p.buf 7 = 0x04 → p.len = 26))

theorem fits_iff (hk : p.connId = k) : p.Fits maxConn connList ↔
    4 ≤ p.len ∧ k < maxConn ∧
      (connList k = false → p.len ≠ 4 → p.buf 4 = 0x05 → p.RequestFits) := by
  have hk' : p.connId.toNat = k := by omega
  constructor
  · intro h
    have hreq := h.request (by omega)
    rw [hk'] at hreq
    have hentry := h.entry (by omega)
    exact ⟨h.id, by omega, hreq⟩
  · rintro ⟨h4, hmax, hreq⟩
    rw [← hk'] at hreq
    exact ⟨h4, fun h => absurd h (by omega), fun _ => by omega, fun _ => hreq⟩

/-- `Parsed` over what follows the look at the entry of the connection. -/
theorem parsed_iff_rest (hk : p.connId = k) {l : List Access}
    (hl : p.handled connList = .entry k :: l) (hentry : l.filterMap Access.entry? = [])
    (honce : (l.filterMap Access.connect?).length ≤ 1) :
    p.Parsed maxConn connList ↔ 4 ≤ p.len ∧ k < maxConn ∧
      (∀ i ∈ l.filterMap Access.byte?, i < p.len) ∧
      (∀ k' r, (k', r) ∈ l.filterMap Access.connect? ↔
        k = k' ∧ connList k = false ∧ r.Is (p.data.drop 4)) := by
  have hstart : ∀ (k' : Nat) (r : Request),
      (p.connId = k' ∧ connList k' = false ∧ r.Is (p.data.drop 4)) ↔
        k = k' ∧ connList k = false ∧ r.Is (p.data.drop 4) := by
    intro k' r
    rw [show p.connId = k' ↔ k = k' by omega]
    refine and_congr_right ?_
    rintro rfl
    exact Iff.rfl
  rw [parsed_iff_handled, hl]
  simp only [List.filterMap_cons, Access.byte?, Access.entry?, Access.connect?, hentry,
    List.forall_mem_singleton, hstart]
  constructor
  · rintro ⟨h4, hbytes, hmax, hstarts, -⟩
    exact ⟨h4, hmax, hbytes, hstarts⟩
  · rintro ⟨h4, hmax, hbytes, hstarts⟩
    exact ⟨h4, hbytes, hmax, hstarts, honce⟩

/-- A message that is rightly no request needs no lengths of one. -/
theorem parsed_iff_silent (hk : p.connId = k) {l : List Access}
    (hl : p.handled connList = .entry k :: l) (hentry : l.filterMap Access.entry? = [])
    (hconnect : l.filterMap Access.connect? = [])
    (hbytes : 4 ≤ p.len → ∀ i ∈ l.filterMap Access.byte?, i < p.len)
    (hno : connList k = false → ∀ r : Request, 4 ≤ p.len → ¬ r.Is (p.data.drop 4)) :
    p.Parsed maxConn connList ↔ 4 ≤ p.len ∧ k < maxConn := by
  rw [parsed_iff_rest hk hl hentry (hconnect ▸ Nat.zero_le 1), hconnect]
  constructor
  · rintro ⟨h4, hmax, -⟩
    exact ⟨h4, hmax⟩
  · rintro ⟨h4, hmax⟩
    refine ⟨h4, hmax, hbytes h4, fun k' r => ?_⟩
    exact ⟨fun h => absurd h List.not_mem_nil, fun h => absurd h.2.2 (hno h.2.1 r h4)⟩

/-- A request is read within its bytes and understood just when it has its lengths. -/
theorem started_iff (hlen : 5 ≤ p.len) (hver : p.buf 4 = 0x05) :
    ((∀ i ∈ (p.started k).filterMap Access.byte?, i < p.len) ∧
      (∀ k' r, (k', r) ∈ (p.started k).filterMap Access.connect? ↔
        k = k' ∧ r.Is (p.data.drop 4))) ↔ p.RequestFits := by
  constructor
  · rintro ⟨hbytes, hstart⟩
    obtain ⟨h6, h⟩ := forall_started_lt.1 hbytes
    refine ⟨h6, fun h5 => ?_⟩
    obtain ⟨h1, h3, h4⟩ := (started_connect_iff hlen hver hbytes).1 hstart h5
    exact ⟨(h h5).1, h1, fun h7 => ⟨((h h5).2.2.1 h7).1, h3 h7⟩, h4⟩
  · rintro ⟨h6, h⟩
    have hbytes : ∀ i ∈ (p.started k).filterMap Access.byte?, i < p.len := forall_started_lt.2
      ⟨h6, fun h5 => ⟨(h h5).1, fun h7 => ((h h5).2.1 h7).ge,
        fun h7 => ⟨((h h5).2.2.1 h7).1, ((h h5).2.2.1 h7).2.ge⟩, fun h7 => ((h h5).2.2.2 h7).ge⟩⟩
    exact ⟨hbytes, (started_connect_iff hlen hver hbytes).2 fun h5 =>
      ⟨(h h5).2.1, fun h7 => ((h h5).2.2.1 h7).2, (h h5).2.2.2⟩⟩

/-- The messages for the server itself. -/
theorem parsed_iff_of_control (hid : p.connId < 0) :
    p.Parsed maxConn connList ↔ p.Fits maxConn connList := by
  have hno : ∀ k : Nat, p.connId ≠ k := fun k hk => by omega
  rw [parsed_iff_handled, handled, if_pos hid, controlled_silent.1, controlled_silent.2]
  constructor
  · rintro ⟨h4, hbytes, -⟩
    exact ⟨h4, fun _ => (forall_controlled_lt h4).1 hbytes, fun h => absurd h (not_le.2 hid),
      fun h => absurd h (not_le.2 hid)⟩
  · intro h
    refine ⟨h.id, (forall_controlled_lt h.id).2 (h.control hid),
      fun k hk => absurd hk List.not_mem_nil, fun k r => ?_, Nat.zero_le 1⟩
    exact ⟨fun hk => absurd hk List.not_mem_nil, fun hk => absurd hk.1 (hno k)⟩

/-- A message is parsed as it should be just when it has the lengths that `on_data` takes for
granted. -/
theorem parsed_iff_fits : p.Parsed maxConn connList ↔ p.Fits maxConn connList := by
  by_cases hid : p.connId < 0
  · exact parsed_iff_of_control hid
  obtain ⟨k, hk⟩ : ∃ k : Nat, p.connId = k := ⟨p.connId.toNat, by omega⟩
  have hl := handled.eq_1 p connList
  rw [if_neg hid, show p.connId.toNat = k by omega] at hl
  rw [fits_iff hk]
  by_cases hlen : p.len = 4
  · rw [if_pos hlen] at hl
    have hrest : ∀ {α : Type} (f : Access → Option α), f (.shutdown k) = none →
        (if connList k = true then [Access.shutdown k] else []).filterMap f = [] := by
      intro α f hf
      split <;> simp [hf]
    rw [parsed_iff_silent hk hl (hrest _ rfl) (hrest _ rfl)]
    · simp [hlen]
    · intro _ i hi
      rw [hrest _ rfl] at hi
      exact absurd hi List.not_mem_nil
    · exact fun _ r _ => not_is_of_ver (.inl hlen) r
  rw [if_neg hlen] at hl
  by_cases hlist : connList k = true
  · rw [if_pos hlist] at hl
    rw [parsed_iff_silent hk hl]
    · simp [hlist]
    · rw [List.filterMap_append, entry?_bytes]
      rfl
    · rw [List.filterMap_append, connect?_bytes]
      rfl
    · intro h4
      rw [List.filterMap_append, byte?_bytes]
      exact List.forall_mem_append.2 ⟨forall_mem_range'_lt.2 (.inr (by omega)),
        fun i hi => absurd hi List.not_mem_nil⟩
    · intro hnone
      rw [hlist] at hnone
      cases hnone
  rw [if_neg hlist] at hl
  have hnone : connList k = false := Bool.eq_false_iff.2 hlist
  by_cases hver : p.buf 4 = 0x05
  · rw [if_pos hver] at hl
    rw [parsed_iff_rest hk hl started_entry length_started_connect]
    refine and_congr_right fun h4 => and_congr_right fun _ => ?_
    rw [← started_iff (k := k) (by omega) hver]
    simp only [List.filterMap_cons, Access.byte?, Access.connect?, List.forall_mem_cons]
    simp only [hnone, true_and, true_implies, hlen, ne_eq, not_false_eq_true, hver]
    exact and_congr_left fun _ => and_iff_right (by omega)
  · rw [if_neg hver] at hl
    rw [parsed_iff_silent hk hl rfl rfl]
    · simp [hver]
    · intro h4 i hi
      rw [List.mem_singleton.1 hi]
      omega
    · exact fun _ r h4 => not_is_of_ver (.inr ⟨by omega, hver⟩) r

/-- A request for an IPv4 address that ends behind its type. -/
theorem exists_overread :
    ¬ ∀ (p : Packet) (maxConn : Nat) (connList : Nat → Bool), p.Parsed maxConn connList := by
  intro h
  obtain ⟨hbytes, -⟩ := h ⟨[0, 0, 0, 0, 0x05, 0x01, 0x00, 0x01], fun _ => 0⟩ 1 fun _ => false
  exact absurd (hbytes 12 (by decide)) (by decide)

end accesses

end Packet

end Resend.Socks
