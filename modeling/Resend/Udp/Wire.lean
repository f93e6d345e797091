import Mathlib.Tactic

/-!
# Constants, message kinds and datagrams

`HDS_UDP_Kernel_Config.h`, `HDS_ReadCDR.h`, `HDS_WriteCDR.h` and the two header macros of
`HDS_UDP_Connection.h`. A `Datagram` is what `CONNECTION_FILL_HEADER` and the payload copy leave in
the send buffer; `encode` is its bytes and `KernelRecvData` the receive buffer they end up in.
-/

namespace Resend.Udp

/-! ### Constants -/

def packetMaxHeaderLength : Nat := 20

/-- `HDS_UDP_PACKET_MAX_DATA_LENGTH`, the payload of a full packet. -/
@[simp] abbrev packetMaxDataLength : Nat := 1452

/-- `SMALL_FILE_MAX_SIZE`: up to this length a block goes out as a simple file. -/
def smallFileMaxSize : Nat := 16 * packetMaxDataLength

/-- `HDS_UDP_MAX_CONNECTION_COUNT`, also the weight of the verification bits in an id. -/
abbrev maxConnectionCount : Nat := 2 ^ 20

def defaultSsthreshSize : Nat := 64 * packetMaxDataLength

/-- `MAX_BIT_NUM`, the number of packets the ack bitmap of a complex reader can hold. -/
@[simp] abbrev maxBitNum : Nat := 3072

/-- `HDS_UDP_CONNECTION_SEND_TRY_TIME`. -/
@[simp] abbrev sendTryTime : Nat := 7

def connectionDefaultRto : Int := 3000
def connectionMinRto : Int := 1000
def connectionMaxRto : Int := 8000
def connectionMaxSuspendTime : Int := 1000
def resetReactionTime : Int := 2000
def recvAckTimer : Int := 200
def recverSuccTimer : Int := 100
def connectionRecvCheckDeadTime : Int := 75000

/-- `HDS_BUFFER_POOL_MAX_CTL_SIZE`. -/
def bufferPoolMaxCtlSize : Nat := 512

/-! ### Machine arithmetic -/

/-- An `unsigned int` after a store. -/
@[irreducible] def u32 (n : Nat) : Nat := n % 2 ^ 32

/-- `unsigned int` subtraction. -/
@[irreducible] def sub32 (a b : Nat) : Nat := (a + (2 ^ 32 - b % 2 ^ 32)) % 2 ^ 32

/-- `unsigned long` after a store. -/
@[irreducible] def u64 (n : Nat) : Nat := n % 2 ^ 64

/-- `unsigned long` subtraction. -/
@[irreducible] def sub64 (a b : Nat) : Nat := (a + (2 ^ 64 - b % 2 ^ 64)) % 2 ^ 64

theorem u32_of_lt {n : Nat} (h : n < 2 ^ 32) : u32 n = n := by unfold u32; exact Nat.mod_eq_of_lt h

theorem u32_lt (n : Nat) : u32 n < 2 ^ 32 := by unfold u32; exact Nat.mod_lt _ (by decide)

theorem u32_le (n : Nat) : u32 n ≤ n := by unfold u32; exact Nat.mod_le _ _

theorem u64_of_lt {n : Nat} (h : n < 2 ^ 64) : u64 n = n := by unfold u64; exact Nat.mod_eq_of_lt h

theorem sub32_of_le {a b : Nat} (ha : a < 2 ^ 32) (h : b ≤ a) : sub32 a b = a - b := by
  unfold sub32; omega

/-- The `int` with a given 32-bit pattern. -/
def toInt32 (n : Nat) : Int := if n < 2 ^ 31 then n else (n : Int) - 2 ^ 32

/-! ### Message kinds -/

/-- The `HDS_UDP_TRANS_*` message kinds; every other number is left to the user's processors. -/
inductive MsgType
  | simpleFileRequire
  | simpleFileData
  | simpleFileAck
  | simpleFileRejected
  | simpleFileRequireDuplicate
  | complexFileRequire
  | complexFileData
  | complexFileAck
  | complexFileRejected
  | complexFileSack
  | complexFileRequireDuplicate
  | transReset
deriving DecidableEq, Repr

namespace MsgType

def code : MsgType → Nat
  | simpleFileRequire => 115
  | simpleFileData => 116
  | simpleFileAck => 117
  | simpleFileRejected => 118
  | simpleFileRequireDuplicate => 119
  | complexFileRequire => 100
  | complexFileData => 101
  | complexFileAck => 102
  | complexFileRejected => 103
  | complexFileSack => 104
  | complexFileRequireDuplicate => 105
  | transReset => 106

/-- The cases of the switch in `filter_data`; `none` is its default. -/
def ofCode : Nat → Option MsgType
  | 115 => some simpleFileRequire
  | 116 => some simpleFileData
  | 117 => some simpleFileAck
  | 118 => some simpleFileRejected
  | 119 => some simpleFileRequireDuplicate
  | 100 => some complexFileRequire
  | 101 => some complexFileData
  | 102 => some complexFileAck
  | 103 => some complexFileRejected
  | 104 => some complexFileSack
  | 105 => some complexFileRequireDuplicate
  | 106 => some transReset
  | _ => none

/-- Where `filter_data` sends a datagram; the flag is that of a complex file. -/
inductive Target
  | startRecver (complex : Bool)
  | networkData
  | requireDuplicate (complex : Bool)
  | connectionReset
deriving DecidableEq

/-- The switch in `filter_data`. -/
def target : MsgType → Target
  | simpleFileRequire => .startRecver false
  | complexFileRequire => .startRecver true
  | simpleFileAck | simpleFileData | complexFileAck | complexFileData | complexFileSack => .networkData
  | simpleFileRequireDuplicate => .requireDuplicate false
  | complexFileRequireDuplicate => .requireDuplicate true
  | transReset | simpleFileRejected | complexFileRejected => .connectionReset

theorem ofCode_code (t : MsgType) : ofCode t.code = some t := by cases t <;> rfl

theorem code_lt (t : MsgType) : t.code < 2 ^ 32 := by cases t <;> decide

end MsgType

/-! ### Datagrams -/

/-- A datagram of a transfer. `CONNECTION_FILL_HEADER` writes the sender's `_ID32[1]` first, which
the receiver reads back as its own `_ID32[0]`: `toId` names the receiving connection, `fromId` the
sending one. `sendTime` is the 32-bit pattern of the clock. -/
structure Datagram where
  msgType : MsgType
  toId : Nat
  fromId : Nat
  sendTime : Nat
  dtNote : Nat
  data : List UInt8
deriving DecidableEq, Repr

/-- `Kernel_Recv_Data`: the receive buffer keeps whatever it held past `dataLength`. -/
structure KernelRecvData where
  remoteAddr : Nat
  dataLength : Nat
  data : List UInt8

/-- `write_ulong`: four bytes, least significant first. -/
def writeUlong (x : Nat) : List UInt8 :=
  [UInt8.ofNat x, UInt8.ofNat (x / 2 ^ 8), UInt8.ofNat (x / 2 ^ 16), UInt8.ofNat (x / 2 ^ 24)]

/-- `read_ulong` at position `pos`; no bound is checked. -/
def readUlong (bytes : List UInt8) (pos : Nat) : Nat :=
  (bytes.getD pos 0).toNat + (bytes.getD (pos + 1) 0).toNat * 2 ^ 8 +
    (bytes.getD (pos + 2) 0).toNat * 2 ^ 16 + (bytes.getD (pos + 3) 0).toNat * 2 ^ 24

/-- `CONNECTION_FILL_HEADER` followed by the payload. -/
def Datagram.encode (d : Datagram) : List UInt8 :=
  writeUlong d.msgType.code ++ writeUlong d.toId ++ writeUlong d.fromId ++ writeUlong d.sendTime ++
    writeUlong d.dtNote ++ d.data

/-- `CONNECTION_UNFILL_HEADER`: `recv_data_length` is `data_length - 20`, negative for a short
datagram, and the payload starts at byte 20. -/
def unfillHeader (t : MsgType) (r : KernelRecvData) : Datagram × Int :=
  ({ msgType := t
     toId := readUlong r.data 4
     fromId := readUlong r.data 8
     sendTime := readUlong r.data 12
     dtNote := readUlong r.data 16
     data := (r.data.take r.dataLength).drop packetMaxHeaderLength },
   (r.dataLength : Int) - packetMaxHeaderLength)

theorem readUlong_writeUlong {x : Nat} (hx : x < 2 ^ 32) (pre post : List UInt8) :
    readUlong (pre ++ writeUlong x ++ post) pre.length = x := by
  simp only [readUlong, writeUlong, List.append_assoc, List.getD_eq_getElem?_getD]
  simp only [List.getElem?_append_right (Nat.le_refl _), Nat.sub_self,
    List.getElem?_append_right (Nat.le_add_right _ _), Nat.add_sub_cancel_left]
  simp only [List.cons_append, List.getElem?_cons_zero, List.getElem?_cons_succ, Option.getD_some,
    UInt8.toNat_ofNat']
  omega

/-- The four header numbers fit their 32-bit fields. -/
structure Datagram.WF (d : Datagram) : Prop where
  toId : d.toId < 2 ^ 32
  fromId : d.fromId < 2 ^ 32
  sendTime : d.sendTime < 2 ^ 32
  dtNote : d.dtNote < 2 ^ 32

theorem length_writeUlong (x : Nat) : (writeUlong x).length = 4 := rfl

theorem Datagram.length_encode (d : Datagram) : d.encode.length = 20 + d.data.length := by
  simp [encode, length_writeUlong]; omega

theorem Datagram.ofCode_encode (d : Datagram) (junk : List UInt8) :
    MsgType.ofCode (readUlong (d.encode ++ junk) 0) = some d.msgType := by
  have h := readUlong_writeUlong d.msgType.code_lt []
    (writeUlong d.toId ++ writeUlong d.fromId ++ writeUlong d.sendTime ++
      writeUlong d.dtNote ++ d.data ++ junk)
  have hcode : readUlong (d.encode ++ junk) 0 = d.msgType.code := by simpa [Datagram.encode] using h
  rw [hcode, MsgType.ofCode_code]

theorem Datagram.toId_encode {d : Datagram} (h : d.toId < 2 ^ 32) (junk : List UInt8) :
    readUlong (d.encode ++ junk) 4 = d.toId := by
  have h4 := readUlong_writeUlong h (writeUlong d.msgType.code)
    (writeUlong d.fromId ++ writeUlong d.sendTime ++ writeUlong d.dtNote ++ d.data ++ junk)
  simpa [Datagram.encode, length_writeUlong] using h4

/-- What a receiver decodes from an unaltered datagram is the datagram sent, whatever the receive
buffer still holds past its end. -/
theorem unfillHeader_encode {d : Datagram} (h : d.WF) (addr : Nat) (junk : List UInt8) :
    unfillHeader d.msgType ⟨addr, d.encode.length, d.encode ++ junk⟩ = (d, (d.data.length : Int)) := by
  have field : ∀ {x : Nat} (pre post : List UInt8), x < 2 ^ 32 →
      d.encode ++ junk = pre ++ writeUlong x ++ post → readUlong (d.encode ++ junk) pre.length = x :=
    fun pre post hx he => by rw [he, readUlong_writeUlong hx]
  have h4 := Datagram.toId_encode h.toId junk
  have h8 := field (writeUlong d.msgType.code ++ writeUlong d.toId)
    (writeUlong d.sendTime ++ writeUlong d.dtNote ++ d.data ++ junk) h.fromId
    (by simp [Datagram.encode])
  have h12 := field (writeUlong d.msgType.code ++ writeUlong d.toId ++ writeUlong d.fromId)
    (writeUlong d.dtNote ++ d.data ++ junk) h.sendTime (by simp [Datagram.encode])
  have h16 := field (writeUlong d.msgType.code ++ writeUlong d.toId ++ writeUlong d.fromId ++
    writeUlong d.sendTime) (d.data ++ junk) h.dtNote (by simp [Datagram.encode])
  simp only [List.length_append, length_writeUlong, Nat.reduceAdd] at h8 h12 h16
  have hdata : ((d.encode ++ junk).take d.encode.length).drop packetMaxHeaderLength = d.data := by
    rw [List.take_left']
    · simp [Datagram.encode, packetMaxHeaderLength, writeUlong]
    · rfl
  simp only [unfillHeader, h4, h8, h12, h16, hdata]
  rw [d.length_encode]
  simp [packetMaxHeaderLength]

/-! ### Copies -/

/-- `memcpy(buf + off, data, length)`, as far as it stays inside `buf`. -/
def memcpyAt (buf : List UInt8) (off : Nat) (data : List UInt8) : List UInt8 :=
  buf.mapIdx fun i b => if off ≤ i then data.getD (i - off) b else b

@[simp] theorem length_memcpyAt (buf : List UInt8) (off : Nat) (data : List UInt8) :
    (memcpyAt buf off data).length = buf.length := by
  simp [memcpyAt]

theorem getElem?_memcpyAt (buf : List UInt8) (off : Nat) (data : List UInt8) (i : Nat) :
    (memcpyAt buf off data)[i]? =
      buf[i]?.map fun b => if off ≤ i then data.getD (i - off) b else b := by
  simp [memcpyAt]

end Resend.Udp
