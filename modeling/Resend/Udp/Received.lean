import Resend.Udp.Transfer

/-!
# What a reader has received

`Received a R r`: the reader `r` has the packets `R` of the send `a` in its buffer, has copied each of
them there, and has acknowledged nothing else; whatever it pushed is the message. Both kinds of reader
run handlers that take `R` to a larger set (`Receives`).
-/

namespace Resend.Udp
open Handler Connection ConM

/-! ### The message -/

/-- The message of a send: of a chain whose total does not fit an `unsigned int`, what is left of it. -/
def SendArgs.message (a : SendArgs) : List UInt8 := a.bytes.take a.blockLength

section message
variable {a : SendArgs} {buf : List UInt8}

theorem SendArgs.WF.length_message (h : a.WF) : a.message.length = a.blockLength := by
  rw [message, List.length_take]
  exact Nat.min_eq_left h.le_bytes

theorem SendArgs.getElem?_chunk {seq i : Nat} (hi : i < packetMaxDataLength)
    (hlt : seq + i < a.blockLength) :
    (a.chunk seq)[i]? = a.message[seq + i]? := by
  rw [chunk, message, List.getElem?_take_of_lt (by omega),
    List.getElem?_take_of_lt hlt, List.getElem?_drop]

/-- The buffer has the packet at `seq`. -/
def SendArgs.Holds (a : SendArgs) (buf : List UInt8) (seq : Nat) : Prop :=
  ∀ i < packetMaxDataLength, seq + i < a.blockLength → buf[seq + i]? = a.message[seq + i]?

theorem SendArgs.getElem?_memcpyAt_chunk (ha : a.WF) (hbuf : buf.length = a.blockLength) (seq : Nat)
    {j : Nat} (hj : j < a.blockLength) :
    (memcpyAt buf seq (a.chunk seq))[j]? =
      if seq ≤ j ∧ j < seq + packetMaxDataLength then a.message[j]? else buf[j]? := by
  have hlen := ha.le_bytes
  rw [getElem?_memcpyAt, List.getElem?_eq_getElem (hbuf ▸ hj), Option.map_some]
  split
  · rename_i hle
    split
    · rename_i hin
      have hget : (a.chunk seq)[j - seq]? = a.message[seq + (j - seq)]? :=
        a.getElem?_chunk (by omega) (by omega)
      rw [Nat.add_sub_cancel' hle] at hget
      rw [List.getD_eq_getElem?_getD, hget, List.getElem?_eq_getElem (ha.length_message ▸ hj),
        Option.getD_some]
    · have : (a.chunk seq).length ≤ j - seq := by simp only [chunk, List.length_take]; omega
      rw [List.getD_eq_getElem?_getD, List.getElem?_eq_none this, Option.getD_none]
  · rw [if_neg (by omega)]

theorem SendArgs.holds_copied (ha : a.WF) (hbuf : buf.length = a.blockLength) (seq : Nat) :
    a.Holds (memcpyAt buf seq (a.chunk seq)) seq := by
  intro i hi hlt
  rw [getElem?_memcpyAt_chunk ha hbuf seq hlt, if_pos (by omega)]

theorem SendArgs.Holds.copied (ha : a.WF) (hbuf : buf.length = a.blockLength) {seq₀ : Nat}
    (h : a.Holds buf seq₀) (seq : Nat) : a.Holds (memcpyAt buf seq (a.chunk seq)) seq₀ := by
  intro i hi hlt
  rw [getElem?_memcpyAt_chunk ha hbuf seq hlt, h i hi hlt]
  split <;> rfl

theorem SendArgs.eq_message (ha : a.WF) (hbuf : buf.length = a.blockLength)
    (h : ∀ p, p * packetMaxDataLength < a.blockLength → a.Holds buf (p * packetMaxDataLength)) :
    buf = a.message := by
  refine List.ext_getElem? fun j => ?_
  by_cases hj : j < a.blockLength
  · have hdiv := Nat.div_add_mod' j packetMaxDataLength
    have hmod := Nat.mod_lt j (show 0 < packetMaxDataLength by decide)
    have hget := h (j / packetMaxDataLength) (by omega) (j % packetMaxDataLength) hmod (by omega)
    rwa [hdiv] at hget
  · rw [List.getElem?_eq_none (by omega), List.getElem?_eq_none (by rw [ha.length_message]; omega)]

end message

/-! ### Handlers -/

/-- The buffer of a reader that has the packets `R`. -/
structure Buffer (a : SendArgs) (R : Nat → Prop) (c : Connection) : Prop where
  length : c.transmitBufLength = a.blockLength
  buf : ∃ b, c.transmitBuf = some b ∧ b.length = a.blockLength ∧ ∀ p, R p →
    a.Holds b (p * packetMaxDataLength)
  inside : ∀ p, R p → p * packetMaxDataLength < a.blockLength

/-- The copy of packet `p`. -/
def SendArgs.copyOf (a : SendArgs) (p : Nat) : Effect :=
  .memcpy (p * packetMaxDataLength) (a.chunk (p * packetMaxDataLength)).length

/-- What may come out of a reader with the packets `R`, when `R₀` were there before. -/
structure Answers (a : SendArgs) (R₀ R : Nat → Prop) (es : List Effect) : Prop where
  mono : ∀ p, R₀ p → R p
  copied : ∀ p, R p → R₀ p ∨ a.copyOf p ∈ es
  pushes : ∀ data t, Effect.pushMsg data t ∈ es → data = a.message
  acks : ∀ d addr, Effect.kernelSend d addr ∈ es → d.msgType.target = .networkData →
    ∃ k, d.dtNote = k * packetMaxDataLength ∧ ∀ p < k, R p

/-- A handler has taken a reader with the packets `R₀` to `c` with the packets `R`. -/
structure Receives (a : SendArgs) (R₀ R : Nat → Prop) (c : Connection) (es : List Effect) : Prop
  extends Buffer a R c, Answers a R₀ R es

section receives
variable {a : SendArgs} {R₀ R R' : Nat → Prop} {c c' : Connection} {es es' : List Effect}

theorem Buffer.congr (h : Buffer a R c) (hl : c'.transmitBufLength = c.transmitBufLength)
    (hb : c'.transmitBuf = c.transmitBuf) : Buffer a R c' :=
  ⟨hl.trans h.length, hb ▸ h.buf, h.inside⟩

theorem Buffer.eq_message (h : Buffer a R c) (ha : a.WF)
    (hall : ∀ p, p * packetMaxDataLength < a.blockLength → R p) : c.transmitBuf = some a.message := by
  obtain ⟨b, hb, hlen, hR⟩ := h.buf
  rw [hb, SendArgs.eq_message ha hlen fun p hp => hR p (hall p hp)]

theorem Buffer.copy (h : Buffer a R c) (ha : a.WF) {p : Nat}
    (hp : p * packetMaxDataLength < a.blockLength) (hl : c'.transmitBufLength = c.transmitBufLength)
    (hb : c'.transmitBuf = c.transmitBuf.map
        (memcpyAt · (p * packetMaxDataLength) (a.chunk (p * packetMaxDataLength)))) :
    Buffer a (fun q => R q ∨ q = p) c' := by
  obtain ⟨b, hbuf, hlen, hR⟩ := h.buf
  refine ⟨hl.trans h.length, ⟨_, by rw [hb, hbuf, Option.map_some],
    by rw [length_memcpyAt, hlen], ?_⟩, ?_⟩
  · rintro q (hq | rfl)
    exacts [(hR q hq).copied ha hlen _, SendArgs.holds_copied ha hlen _]
  · rintro q (hq | rfl)
    exacts [h.inside q hq, hp]

theorem Answers.nil : Answers a R R [] :=
  ⟨fun _ => id, fun _ => .inl, by simp, by simp⟩

theorem Answers.trans (h : Answers a R₀ R es) (h' : Answers a R R' es') :
    Answers a R₀ R' (es ++ es') := by
  refine ⟨fun p hp => h'.mono p (h.mono p hp), fun p hp => ?_,
    fun data t hd => ?_, fun d addr hd ht => ?_⟩
  · rcases h'.copied p hp with hp | hp
    · exact (h.copied p hp).imp_right fun hp => List.mem_append_left _ hp
    · exact .inr (List.mem_append_right _ hp)
  · rcases List.mem_append.1 hd with hd | hd
    exacts [h.pushes data t hd, h'.pushes data t hd]
  · rcases List.mem_append.1 hd with hd | hd
    · obtain ⟨k, hk, hall⟩ := h.acks d addr hd ht
      exact ⟨k, hk, fun p hp => h'.mono p (hall p hp)⟩
    · exact h'.acks d addr hd ht

theorem Answers.still (h : Still c c' es) : Answers a R R es :=
  ⟨fun _ => id, fun _ => .inl, fun data t hd => absurd hd (h.noPush data t), fun d addr hd ht => by
    rw [h.silent d addr hd] at ht; cases ht⟩

theorem Answers.send {d : Datagram} {addr : Nat}
    (hd : d.msgType.target = .networkData → ∃ k, d.dtNote = k * packetMaxDataLength ∧ ∀ p < k, R p) :
    Answers a R R [.kernelSend d addr] := by
  refine ⟨fun _ => id, fun _ => .inl, by simp, fun d' addr' hd' ht => ?_⟩
  cases List.mem_singleton.1 hd'
  exact hd ht

theorem Answers.push {t : RecvBufType} : Answers a R R [.pushMsg a.message t] :=
  ⟨fun _ => id, fun _ => .inl, by simp, by simp⟩

theorem Answers.copy {p : Nat} : Answers a R (fun q => R q ∨ q = p) [a.copyOf p] := by
  refine ⟨fun _ => .inl, ?_, by simp [SendArgs.copyOf], by simp [SendArgs.copyOf]⟩
  rintro q (hq | rfl)
  exacts [.inl hq, .inr (List.mem_singleton.2 rfl)]

theorem Receives.trans (h : Receives a R₀ R c es) (h' : Receives a R R' c' es') :
    Receives a R₀ R' c' (es ++ es') :=
  ⟨h'.toBuffer, h.toAnswers.trans h'.toAnswers⟩

theorem Buffer.still (h : Buffer a R c) (hs : Still c c' es) : Receives a R R c' es :=
  ⟨h.congr hs.length hs.buf, .still hs⟩

end receives

/-! ### Readers -/

/-- The reader has handed over the message. -/
def Life.Pushed (a : SendArgs) (r : Life) : Prop :=
  ∃ es ∈ r.history, ∃ t, Effect.pushMsg a.message t ∈ es

/-- The reader has copied every packet of the message, and its buffer is the message. -/
def Life.Stored (a : SendArgs) (r : Life) : Prop :=
  r.con.transmitBuf = some a.message ∧
    ∀ p, p * packetMaxDataLength < a.blockLength → ∃ es ∈ r.history, a.copyOf p ∈ es

/-- All that the reader ever handed over is the message. -/
def Life.PushesOnly (a : SendArgs) (r : Life) : Prop :=
  ∀ es ∈ r.history, ∀ data t, Effect.pushMsg data t ∈ es → data = a.message

structure Received (a : SendArgs) (R : Nat → Prop) (r : Life) : Prop extends Buffer a R r.con where
  copied : ∀ p, R p → ∃ es ∈ r.history, a.copyOf p ∈ es
  pushes : r.PushesOnly a
  acks : ∀ d ∈ Transfer.sentBy r, d.msgType.target = .networkData →
    ∃ k, d.dtNote = k * packetMaxDataLength ∧ ∀ p < k, R p

namespace Received
variable {a : SendArgs} {R R' : Nat → Prop} {r r' : Life}

theorem init (r : Life) (hh : r.history = []) (h : Buffer a (fun _ => False) r.con) :
    Received a (fun _ => False) r := by
  refine ⟨h, fun _ hp => hp.elim, fun es hes => ?_, fun d hd => ?_⟩
  · rw [hh] at hes; cases hes
  · obtain ⟨es, hes, -⟩ := Transfer.mem_sentBy.1 hd
    rw [hh] at hes; cases hes

theorem thins (h : Received a R r) (ht : Life.Thins r r') : Received a R r' := by
  obtain ⟨hc, hh, -⟩ := ht
  refine ⟨hc ▸ h.toBuffer, hh ▸ h.copied, fun es hes => h.pushes es (hh ▸ hes), fun d hd => h.acks d ?_⟩
  rw [Transfer.sentBy, ← hh]; exact hd

theorem ran (h : Received a R r) {x : ConM Unit}
    (hx : wp x (fun _ c' es => Receives a R R' c' es) r.con) :
    Received a R' (r.ran x) := by
  have hx : Receives a R R' (exec x r.con).1 (exec x r.con).2 := hx
  refine ⟨by rw [Life.con_ran]; exact hx.toBuffer, fun p hp => ?_,
    fun es hes data t hd => ?_, fun d hd ht => ?_⟩
  · rw [Life.history_ran]
    rcases hx.copied p hp with hp | hp
    · obtain ⟨es, hes, hp⟩ := h.copied p hp
      exact ⟨es, List.mem_cons_of_mem _ hes, hp⟩
    · exact ⟨_, List.mem_cons_self, hp⟩
  · rw [Life.history_ran] at hes
    rcases List.mem_cons.1 hes with rfl | hes
    exacts [hx.pushes data t hd, h.pushes es hes data t hd]
  · obtain ⟨es, hes, addr, hd⟩ := Transfer.mem_sentBy.1 hd
    rw [Life.history_ran] at hes
    rcases List.mem_cons.1 hes with rfl | hes
    · exact hx.acks d addr hd ht
    · obtain ⟨k, hk, hall⟩ := h.acks d (Transfer.mem_sentBy.2 ⟨es, hes, addr, hd⟩) ht
      exact ⟨k, hk, fun p hp => hx.mono p (hall p hp)⟩

theorem stored (h : Received a R r) (ha : a.WF)
    (hall : ∀ p, p * packetMaxDataLength < a.blockLength → R p) :
    r.Stored a :=
  ⟨h.eq_message ha hall, fun p hp => h.copied p (hall p hp)⟩

end Received

theorem Life.Pushed.thins {a : SendArgs} {r r' : Life} (h : r.Pushed a) (ht : Life.Thins r r') :
    r'.Pushed a := by
  unfold Life.Pushed
  rw [ht.2.1]; exact h

theorem Life.Pushed.ran {a : SendArgs} {r : Life} (h : r.Pushed a) (x : ConM Unit) :
    (r.ran x).Pushed a := by
  obtain ⟨es, hes, t, ht⟩ := h
  exact ⟨es, by rw [Life.history_ran]; exact List.mem_cons_of_mem _ hes, t, ht⟩

/-! ### Packets that come in -/

section packets
variable {a : SendArgs} {d : Datagram}

theorem Datagram.PacketOf.later (hd : d.PacketOf a) (ht : d.msgType.target = .networkData) :
    ∃ p, d.dtNote = p * packetMaxDataLength ∧ p * packetMaxDataLength < a.blockLength ∧
      d.data = a.chunk (p * packetMaxDataLength) := by
  have hlater : ((packetMaxDataLength ∣ d.dtNote ∧ 0 < d.dtNote ∧ d.dtNote < a.blockLength) ∧
      d.data = a.chunk d.dtNote) := by
    obtain ⟨t, toId, fromId, sendTime, dtNote, data⟩ := d
    cases t <;> cases ht
    case simpleFileData | complexFileData => exact hd.2
    all_goals exact hd.elim
  obtain ⟨⟨⟨p, hp⟩, -, hlt⟩, hdata⟩ := hlater
  rw [Nat.mul_comm] at hp
  exact ⟨p, hp, hp ▸ hlt, hp ▸ hdata⟩

theorem Datagram.PacketOf.first (hd : d.PacketOf a) {complex : Bool}
    (ht : d.msgType.target = .startRecver complex ∨ d.msgType.target = .requireDuplicate complex) :
    (complex = true ↔ smallFileMaxSize < a.blockLength) ∧
      d.dtNote = a.blockLength ∧ d.data = a.chunk 0 := by
  obtain ⟨t, toId, fromId, sendTime, dtNote, data⟩ := d
  cases t <;> rcases ht with ht | ht <;> cases ht
  case simpleFileRequire.inl | simpleFileRequireDuplicate.inr =>
    exact ⟨⟨fun h => (by cases h), fun h => absurd h (Nat.not_lt.2 hd.1)⟩, hd.2⟩
  case complexFileRequire.inl | complexFileRequireDuplicate.inr =>
    exact ⟨⟨fun _ => hd.1, fun _ => rfl⟩, hd.2⟩

end packets

/-- A reader that `start_recver` has equipped: nothing received yet, room for the whole block. -/
theorem buffer_of_equipReader {a : SendArgs} {complex : Bool} {d : Datagram} {newId addr : Nat}
    {attr : Option RecvVerificationAttribute} {buffer : Option (List UInt8)} {c : Connection}
    (hd : d.dtNote = a.blockLength) (hfit : Transfer.Fits d.dtNote attr buffer)
    (hc : equipReader attr buffer (waitingReader (newReader complex d) newId addr) = some c) :
    Buffer a (fun _ => False) c ∧ c.kind = (if complex then .complexReader else .simpleReader) ∧
      c.leftWindowCursor = 0 ∧ c.memcpyCount = 0 ∧ c.ackInfoCollector = .zero := by
  obtain ⟨hbuffer, hattr⟩ := hfit
  rw [hd] at hbuffer hattr
  have key : ∀ b t f, b.length = a.blockLength →
      c = { waitingReader (newReader complex d) newId addr with
        transmitBuf := some b, recvBufType := t, recvFailedHandle := f } →
      Buffer a (fun _ => False) c ∧ c.kind = (if complex then .complexReader else .simpleReader) ∧
        c.leftWindowCursor = 0 ∧ c.memcpyCount = 0 ∧ c.ackInfoCollector = .zero := by
    rintro b t f hb rfl
    exact ⟨⟨hd, ⟨b, rfl, hb, fun _ h => h.elim⟩, fun _ h => h.elim⟩, rfl, rfl, rfl, rfl⟩
  have hnone : (waitingReader (newReader complex d) newId addr).transmitBuf = none := rfl
  unfold equipReader at hc
  cases attr with
  | none =>
    simp only [Option.bind_some, hnone, Option.isSome_none, Bool.false_eq_true, if_false] at hc
    obtain ⟨b, hb, rfl⟩ := Option.map_eq_some_iff.1 hc
    exact key b _ _ (hbuffer b hb) rfl
  | some v =>
    cases hrecv : v.recv with
    | false => simp [hrecv] at hc
    | true =>
      cases hbuf : v.recvBuf with
      | none =>
        simp only [hrecv, if_true, hbuf, Option.bind_some, Option.isSome_none,
          Bool.false_eq_true, if_false] at hc
        obtain ⟨b, hb, rfl⟩ := Option.map_eq_some_iff.1 hc
        exact key b _ _ (hbuffer b hb) rfl
      | some b =>
        simp only [hrecv, if_true, hbuf, Option.bind_some, Option.isSome_some, Option.some.injEq] at hc
        exact key b _ _ (hattr v rfl b hbuf) hc.symm

end Resend.Udp
