import Resend.Udp.Lifecycle

/-!
# The packets of a complex file

`CONNECTION_FILL_DATA` copies `[seq, min (seq + 1452) len)` of the source, be it one block or a chain
of message nodes. A data packet is `Valid` when it carries just these bytes of a packet boundary inside
the source; an honest reader acknowledges the packets that went out.
-/

namespace Resend.Udp
open Handler Connection ConM

/-! ### The source -/

namespace MessageNode

/-- The bytes of a chain. -/
def bytes (ns : List MessageNode) : List UInt8 := ns.flatMap (·.sourceData)

theorem bytes_cons (n : MessageNode) (ns : List MessageNode) :
    bytes (n :: ns) = n.sourceData ++ bytes ns :=
  List.flatMap_cons

theorem ne_nil_of_bytes {ns : List MessageNode} (h : 0 < (bytes ns).length) : ns ≠ [] := by
  rintro rfl
  exact Nat.lt_irrefl _ h

/-- The first loop finds the node and the place where byte `off` is. -/
theorem seek_spec {ns : List MessageNode} {off : Nat} (h : off < (bytes ns).length) :
    ∃ ns' start, seek ns off = some (ns', start) ∧ (bytes ns').drop start = (bytes ns).drop off ∧
      ∀ n ∈ ns'.head?, start ≤ n.sourceData.length := by
  induction ns generalizing off with
  | nil => exact absurd h (Nat.not_lt_zero _)
  | cons n ns ih =>
    rw [bytes_cons, List.length_append] at h
    rw [seek]
    rcases Nat.lt_trichotomy off n.sourceData.length with hlt | heq | hgt
    · rw [if_pos (by omega)]
      refine ⟨_, _, rfl, ?_, ?_⟩
      · congr 1; omega
      · simp only [List.head?_cons, Option.mem_some_iff]
        rintro _ rfl
        omega
    · rw [if_neg (by omega), if_pos (by omega), if_neg (ne_nil_of_bytes (by omega))]
      refine ⟨_, _, rfl, ?_, fun _ _ => Nat.zero_le _⟩
      rw [bytes_cons, heq, List.drop_left, List.drop_zero]
    · rw [if_neg (by omega), if_neg (by omega)]
      have hrest : off - n.sourceData.length < (bytes ns).length := by omega
      obtain ⟨ns', start, h1, h2, h3⟩ := ih hrest
      rw [show ((off : Int) - (n.sourceData.length : Int)) =
        ((off - n.sourceData.length : Nat) : Int) by omega]
      refine ⟨ns', start, h1, h2.trans ?_, h3⟩
      rw [bytes_cons, List.drop_append, List.drop_eq_nil_of_le hgt.le, List.nil_append]

theorem copy_spec {ns : List MessageNode} {start copySize : Nat}
    (hs : ∀ n ∈ ns.head?, start ≤ n.sourceData.length) (h : start + copySize ≤ (bytes ns).length) :
    copy ns start copySize = some (((bytes ns).drop start).take copySize) := by
  induction ns generalizing start copySize with
  | nil =>
    obtain ⟨rfl, rfl⟩ : start = 0 ∧ copySize = 0 := by
      simp only [bytes, List.flatMap_nil, List.length_nil] at h; omega
    rfl
  | cons n ns ih =>
    have hstart : start ≤ n.sourceData.length := hs n rfl
    rw [bytes_cons, List.length_append] at h
    rw [copy, bytes_cons, List.drop_append_of_le_length hstart]
    by_cases hge : n.sourceData.length - start ≥ copySize
    · rw [if_pos hge, List.take_append_of_le_length (by rw [List.length_drop]; exact hge)]
    · have hall : (n.sourceData.drop start).take copySize = n.sourceData.drop start :=
        List.take_of_length_le (by rw [List.length_drop]; omega)
      rw [if_neg hge, if_neg (ne_nil_of_bytes (by omega)),
        ih (fun _ _ => Nat.zero_le _) (by omega), List.take_append, hall,
        List.length_drop, List.drop_zero]
      rfl

end MessageNode

/-- What a writer has to send. -/
def Connection.source (c : Connection) : List UInt8 :=
  c.transmitBuf.getD (MessageNode.bytes c.transMessageNode)

theorem fillData_eq {c : Connection} {seq : Nat} (hseq : seq < c.transmitBufLength)
    (hlen : c.transmitBufLength < 2 ^ 32) (hsrc : c.transmitBufLength ≤ c.source.length) :
    c.fillData seq =
      some ((c.source.drop seq).take (min (c.transmitBufLength - seq) packetMaxDataLength)) := by
  rw [fillData, sub32_of_le hlen hseq.le]
  cases hbuf : c.transmitBuf with
  | some buf => simp only [source, hbuf, Option.getD_some]
  | none =>
    simp only [source, hbuf, Option.getD_none] at hsrc ⊢
    obtain ⟨ns', start, h1, h2, h3⟩ := MessageNode.seek_spec (Nat.lt_of_lt_of_le hseq hsrc)
    have hlen' := congrArg List.length h2
    rw [List.length_drop, List.length_drop] at hlen'
    rw [h1, Option.bind_some, MessageNode.copy_spec h3 (by omega), h2]

/-- The bytes a caller of `start_sender` passes. -/
def SendArgs.bytes (a : SendArgs) : List UInt8 := a.block.getD (MessageNode.bytes a.node)

theorem SendArgs.WF.le_bytes {a : SendArgs} (h : a.WF) : a.blockLength ≤ a.bytes.length := by
  rcases h.source with ⟨-, b, hb, hlen⟩ | ⟨-, hb, hlen⟩
  · simp [bytes, hb, hlen]
  · rw [bytes, hb, Option.getD_none, MessageNode.bytes, List.length_flatMap, ← hlen]
    exact u32_le _

/-! ### Packets -/

/-- The bytes `[seq, min (seq + 1452) len)`. -/
def SendArgs.chunk (a : SendArgs) (seq : Nat) : List UInt8 :=
  (a.bytes.drop seq).take (min (a.blockLength - seq) packetMaxDataLength)

/-- The datagrams of the send `a`: its first packet with the length of the block, the packets at later
boundaries, and resets. -/
def Datagram.PacketOf (a : SendArgs) (d : Datagram) : Prop :=
  let first := d.dtNote = a.blockLength ∧ d.data = a.chunk 0
  let later := (packetMaxDataLength ∣ d.dtNote ∧ 0 < d.dtNote ∧ d.dtNote < a.blockLength) ∧
    d.data = a.chunk d.dtNote
  match d.msgType with
  | .simpleFileRequire | .simpleFileRequireDuplicate => a.blockLength ≤ smallFileMaxSize ∧ first
  | .complexFileRequire | .complexFileRequireDuplicate => smallFileMaxSize < a.blockLength ∧ first
  | .simpleFileData => a.blockLength ≤ smallFileMaxSize ∧ later
  | .complexFileData => smallFileMaxSize < a.blockLength ∧ later
  | .transReset => True
  | _ => False

theorem Datagram.packetOf_reset {a : SendArgs} {d : Datagram} (h : d.msgType = .transReset) :
    d.PacketOf a := by
  simp only [PacketOf, h]

/-- All datagrams among these effects are datagrams of the send. -/
def PacketsOf (a : SendArgs) (es : List Effect) : Prop :=
  ∀ d addr, Effect.kernelSend d addr ∈ es → d.PacketOf a

theorem PacketsOf.nil {a : SendArgs} : PacketsOf a [] := fun _ _ h => by cases h

theorem PacketsOf.cons {a : SendArgs} {d : Datagram} {addr : Nat} {es : List Effect} (hd : d.PacketOf a)
    (h : PacketsOf a es) : PacketsOf a (.kernelSend d addr :: es) := by
  intro d' addr' hd'
  rcases List.mem_cons.1 hd' with hd' | hd'
  · cases hd'; exact hd
  · exact h d' addr' hd'

theorem PacketsOf.append {a : SendArgs} {es es' : List Effect} (h : PacketsOf a es)
    (h' : PacketsOf a es') :
    PacketsOf a (es ++ es') := by
  intro d addr hd
  rcases List.mem_append.1 hd with hd | hd
  exacts [h d addr hd, h' d addr hd]

/-- Everything that went out so far is a datagram of the send. -/
def Life.Emits (a : SendArgs) (l : Life) : Prop := ∀ es ∈ l.history, PacketsOf a es

theorem Life.Emits.ran {a : SendArgs} {l : Life} (h : l.Emits a) {x : ConM Unit}
    (hx : PacketsOf a (exec x l.con).2) : (l.ran x).Emits a := by
  intro es hes
  rw [Life.history_ran] at hes
  rcases List.mem_cons.1 hes with rfl | hes
  exacts [hx, h es hes]

/-- The sequence number of a data packet of a complex file; the first packet carries the length
instead. -/
def Effect.dataSeq : Effect → Option Nat
  | .kernelSend ⟨.complexFileRequire, _, _, _, _, _⟩ _ => some 0
  | .kernelSend ⟨.complexFileRequireDuplicate, _, _, _, _, _⟩ _ => some 0
  | .kernelSend ⟨.complexFileData, _, _, _, dtNote, _⟩ _ => some dtNote
  | _ => none

/-- The payload of a packet. -/
def Effect.payload : Effect → List UInt8
  | .kernelSend d _ => d.data
  | _ => []

/-- A data packet of the send `a`. -/
structure Effect.Valid (a : SendArgs) (e : Effect) (seq : Nat) : Prop where
  dvd : packetMaxDataLength ∣ seq
  lt : seq < a.blockLength
  payload : e.payload = a.chunk seq

theorem Datagram.PacketOf.valid {a : SendArgs} {d : Datagram} (h : d.PacketOf a) {addr seq : Nat}
    (hseq : (Effect.kernelSend d addr).dataSeq = some seq) :
    (Effect.kernelSend d addr).Valid a seq := by
  obtain ⟨t, toId, fromId, sendTime, dtNote, data⟩ := d
  cases t <;> simp only [Effect.dataSeq, Option.some.injEq, reduceCtorEq] at hseq
  · obtain ⟨hlen, -, hdata⟩ := h
    subst hseq
    exact ⟨dvd_zero _, Nat.lt_of_le_of_lt (Nat.zero_le _) hlen, hdata⟩
  · obtain ⟨-, ⟨hdvd, -, hlt⟩, hdata⟩ := h
    subst hseq
    exact ⟨hdvd, hlt, hdata⟩
  · obtain ⟨hlen, -, hdata⟩ := h
    subst hseq
    exact ⟨dvd_zero _, Nat.lt_of_le_of_lt (Nat.zero_le _) hlen, hdata⟩

theorem buildAndSend_packet (now : Nat) (c : Connection) :
    wp (ComplexConnection.buildAndSend now) (fun _ _ es => ∃ t,
      es = [.kernelSend ⟨t, c.id1, c.id0, now,
        u32 (if c.currentWindowCursor = 0 then c.transmitBufLength else c.currentWindowCursor),
        (c.fillData c.currentWindowCursor).getD []⟩ c.remoteAddr] ∧
      if c.currentWindowCursor = 0 then t = .complexFileRequire ∨ t = .complexFileRequireDuplicate
      else t = .complexFileData) c := by
  rw [ComplexConnection.buildAndSend, wp_bind, wp_get, wp_bind, ComplexConnection.sendMsgType, wp_ite]
  by_cases hz : c.currentWindowCursor = 0
  · rw [if_pos hz, wp_bind, wp_testAndSet (by decide), wp_pure, wp_bind,
      wp_sendDatagram, wp_increaseRunningCount]
    refine ⟨_, rfl, ?_⟩
    rw [if_pos hz]
    cases c.has hasSendRequieBit
    exacts [.inl rfl, .inr rfl]
  · rw [if_neg hz, wp_pure, wp_bind, wp_sendDatagram, wp_increaseRunningCount]
    exact ⟨_, rfl, by rw [if_neg hz]⟩

/-! ### Honest readers -/

/-- The sequence numbers that went out so far. -/
def Life.sentSeqs (l : Life) : List Nat := l.history.flatMap fun es => es.filterMap Effect.dataSeq

/-- An ack that a reader can send: it has the first `k` packets. -/
def Life.HonestAck (l : Life) (d : Datagram) : Prop :=
  (d.msgType = .complexFileAck ∨ d.msgType = .complexFileSack) ∧
    ∃ k < l.sentSeqs.length + 1, 0 < k ∧ d.dtNote = u32 (k * packetMaxDataLength) ∧
      ∀ p < k, p * packetMaxDataLength ∈ l.sentSeqs

instance (l : Life) (d : Datagram) : Decidable (l.HonestAck d) := inferInstanceAs (Decidable (_ ∧ _))

/-- What an honest reader and the float arithmetic allow: the growth is the acknowledged interval times
a factor of at most 1, up to rounding. -/
def Life.Honest (l : Life) : Life.Act → Prop
  | .networkData inc _ d _ => l.HonestAck d ∧ inc ≤ 2 * (d.dtNote - l.con.leftWindowCursor)
  | _ => True

instance (l : Life) : (act : Life.Act) → Decidable (l.Honest act)
  | .networkData .. => inferInstanceAs (Decidable (_ ∧ _))
  | .reset _ | .stop | .timeOut _ | .sender _ => inferInstanceAs (Decidable True)

/-- The shortest block that is sent as a complex file. -/
def shortestComplex : SendArgs :=
  ⟨[], some (List.replicate 23233 0), 23233, 0, .noDeleteAfterSend, none, defaultSsthreshSize, 2 ^ 20⟩

theorem shortestComplex_wf : shortestComplex.WF where
  length := by decide
  source := .inl ⟨rfl, _, rfl, List.length_replicate⟩
  ssthresh := by decide
  maxWindow := by decide

end Resend.Udp
