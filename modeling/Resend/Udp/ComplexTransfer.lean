import Resend.Udp.Received

/-!
# Complex transfers

A complex reader copies a packet when its ack collector has not recorded it yet, so the packets it has
are those the collector knows of. Its acks carry `lastAckPos`, below which everything is recorded, and
`Recver_Succ_Timer` is armed only by an ack of the whole block. Going back, selective recovery and
duplicates on the writer's side only decide which packets of the block arrive, and how often.
-/

namespace Resend.Udp.ComplexTransfer
open Handler Connection ConM

/-- The packets of a complex reader. -/
def Taken (c : Connection) : Nat → Prop := c.ackInfoCollector.Recorded

/-- All packets of the block are recorded. -/
def All (a : SendArgs) (c : Connection) : Prop :=
  ∀ p, p * packetMaxDataLength < a.blockLength → Taken c p

structure Records (c : Connection) : Prop where
  kind : c.kind = .complexReader
  left : c.leftWindowCursor = 0
  ok : c.ackInfoCollector.Ok (Taken c)

/-- What a handler of the reader `c` leaves. -/
structure Step (a : SendArgs) (c c' : Connection) (es : List Effect) : Prop where
  receives : Receives a (Taken c) (Taken c') c' es
  records : Records c'
  timers : ∀ p ∈ es.filterMap Life.armed, p.1 = .recverSuccTimer → All a c'

section handlers
variable {a : SendArgs} {c c' c'' : Connection} {es es' : List Effect}

theorem All.mono (h : All a c) (hm : ∀ p, Taken c p → Taken c' p) : All a c' :=
  fun p hp => hm p (h p hp)

theorem Step.trans (h : Step a c c' es) (h' : Step a c' c'' es') : Step a c c'' (es ++ es') := by
  refine ⟨h.receives.trans h'.receives, h'.records, fun p hp ht => ?_⟩
  rw [List.filterMap_append] at hp
  rcases List.mem_append.1 hp with hp | hp
  · exact (h.timers p hp ht).mono h'.receives.mono
  · exact h'.timers p hp ht

theorem Step.ofStill (h : Records c) (hb : Buffer a (Taken c) c) (hs : Still c c' es) :
    Step a c c' es := by
  have htaken : Taken c' = Taken c := by unfold Taken; rw [hs.collector]
  refine ⟨by rw [htaken]; exact hb.still hs, ⟨hs.kind.trans h.kind, hs.left.trans h.left, ?_⟩,
    fun p hp ht => ?_⟩
  · rw [htaken, hs.collector]; exact h.ok
  · exact absurd ht (hs.noTimer p hp)

theorem Step.send (h : Records c) (hb : Buffer a (Taken c) c) {d : Datagram} {addr : Nat}
    (hd : d.msgType.target = .networkData →
      ∃ k, d.dtNote = k * packetMaxDataLength ∧ ∀ p < k, Taken c p) :
    Step a c c [.kernelSend d addr] :=
  ⟨⟨hb, .send hd⟩, h, by simp [Life.armed]⟩

theorem prefix_lt (hb : Buffer a (Taken c) c) {k : Nat} (hk : ∀ p < k, Taken c p) :
    k * packetMaxDataLength < a.blockLength + packetMaxDataLength := by
  cases k with
  | zero => simp
  | succ n =>
    rw [Nat.succ_mul]
    exact Nat.add_lt_add_right (hb.inside n (hk n n.lt_succ_self)) _

theorem all_of_prefix {k : Nat} (hk : ∀ p < k, Taken c p)
    (hle : a.blockLength ≤ k * packetMaxDataLength) :
    All a c := fun p hp => hk p (Nat.lt_of_mul_lt_mul_right (Nat.lt_of_lt_of_le hp hle))

theorem Step.collector (h : Records c) (hb : Buffer a (Taken c) c) {col : AckInfoCollector}
    (hcol : col.Ok (Taken c)) : Step a c { c with ackInfoCollector := col } [] := by
  have htaken : Taken { c with ackInfoCollector := col } = Taken c := hcol.eq_recorded.symm
  exact ⟨⟨by rw [htaken]; exact hb.congr rfl rfl, by rw [htaken]; exact .nil⟩,
    ⟨h.kind, h.left, by rw [htaken]; exact hcol⟩, by simp⟩

theorem receivePacket (ha : a.WF) (h : Records c) (hb : Buffer a (Taken c) c) {p : Nat}
    (hp : p * packetMaxDataLength < a.blockLength) (sendTime : Nat) :
    wp (do
        let bitValue ← ComplexConnection.collectorSet (p * packetMaxDataLength) sendTime
        Handler.when (¬ (bitValue = none ∨ bitValue = some 1)) (copyData (p * packetMaxDataLength)
          (a.chunk (p * packetMaxDataLength)) (a.chunk (p * packetMaxDataLength)).length))
      (fun _ c' es => Step a c c' es) c := by
  obtain ⟨hnone, hsome⟩ := AckInfoCollector.set_spec h.ok (p * packetMaxDataLength) sendTime
  rw [Nat.mul_div_cancel _ (by decide : 0 < packetMaxDataLength)] at hsome
  rw [wp_bind, ComplexConnection.collectorSet, wp_modifyGet, wp_when]
  cases hset : (c.ackInfoCollector.set (p * packetMaxDataLength) sendTime).1 with
  | none =>
    rw [if_neg (by simp)]
    exact .collector h hb (hnone hset)
  | some old =>
    obtain ⟨hok, hold⟩ := hsome old hset
    by_cases hone : old = 1
    · -- recorded before: nothing is copied
      have hR : Taken c p := not_not.1 fun hR => absurd (hold.2 hR) (by rw [hone]; decide)
      have hsame : (fun q => Taken c q ∨ q = p) = Taken c :=
        funext fun q => propext ⟨fun hq => hq.elim id fun hq => hq ▸ hR, .inl⟩
      rw [if_neg (by simp [hone])]
      exact .collector h hb (hsame ▸ hok)
    · rw [if_pos (by simp [hone]), copyData, wp_bind, wp_modify, wp_emit]
      generalize hc₁ : ({ c with
        ackInfoCollector := (c.ackInfoCollector.set (p * packetMaxDataLength) sendTime).2
        transmitBuf := c.transmitBuf.map
          (memcpyAt · (p * packetMaxDataLength) (a.chunk (p * packetMaxDataLength))) } :
            Connection) = c₁
      have htaken : Taken c₁ = fun q => Taken c q ∨ q = p := by rw [← hc₁]; exact hok.eq_recorded.symm
      refine ⟨⟨?_, by rw [htaken]; exact .copy⟩, ⟨?_, ?_, ?_⟩, by simp [Life.armed]⟩
      · rw [htaken, ← hc₁]; exact hb.copy ha hp rfl rfl
      · rw [← hc₁]; exact h.kind
      · rw [← hc₁]; exact h.left
      · rw [htaken, ← hc₁]; exact hok

/-- All packets are in: the message is handed over a little later. -/
theorem armSucc (h : Records c) (hb : Buffer a (Taken c) c) (hall : All a c) :
    wp (do
        setTransResultCode .successfully
        let old ← testAndSet setRecvSuccTimerBit
        Handler.when (old = 0) (addToTimerQueue recverSuccTimer .recverSuccTimer))
      (fun _ c' es => Step a c c' es) c := by
  have hcode : Keeps Still (setTransResultCode .successfully) :=
    keeps_modify fun _ => .update rfl rfl rfl rfl rfl rfl
  rw [wp_bind]
  refine wp_mono _ (hcode c) fun _ c₀ es₀ h0 => ?_
  rw [wp_bind]
  refine wp_mono _ (Still.testAndSet setRecvSuccTimerBit c₀) fun old c₁ es₁ h1 => ?_
  have h1 := Step.ofStill h hb (still.trans h0 h1)
  rw [wp_when]
  by_cases hold : old = 0
  · have h2 : Step a c₁ c₁ [.addTimer recverSuccTimer .recverSuccTimer c₁.runningCount c₁.offset] :=
      ⟨⟨h1.receives.toBuffer, ⟨fun _ => id, fun _ => .inl, by simp, by simp⟩⟩, h1.records,
        fun _ _ _ => hall.mono h1.receives.mono⟩
    rw [if_pos hold, wp_addToTimerQueue, ← List.append_assoc]
    exact h1.trans h2
  · rw [if_neg hold, List.append_nil]
    exact h1

section acks
variable (hmax : a.blockLength ≤ 2 ^ 32 - packetMaxDataLength)
include hmax

theorem nextAck (h : Records c) (hb : Buffer a (Taken c) c) :
    wp ComplexConnection.nextAck (fun r c' es => Step a c c' es ∧
      ∃ k, r.2.1 = k * packetMaxDataLength ∧ k * packetMaxDataLength < 2 ^ 32 ∧
      ∀ p < k, Taken c' p) c := by
  obtain ⟨hok, -, hseq⟩ := AckInfoCollector.getNextAck_spec h.ok
  have hstep := Step.collector h hb hok
  have hk : ∀ p < c.ackInfoCollector.getNextAck.2.lastAckPos, Taken c p := hok.below
  have hlt : c.ackInfoCollector.getNextAck.2.lastAckPos * packetMaxDataLength < 2 ^ 32 :=
    Nat.lt_of_lt_of_le (prefix_lt hb hk) (Nat.add_le_of_le_sub (by decide) hmax)
  rw [ComplexConnection.nextAck, wp_modifyGet]
  exact ⟨hstep, _, hseq.trans (u32_of_lt hlt), hlt, fun p hp => hstep.receives.mono p (hk p hp)⟩

theorem readerAnswerStopped (h : Records c) (hb : Buffer a (Taken c) c) :
    wp ComplexConnection.readerAnswerStopped (fun _ c' es => Step a c c' es) c := by
  rw [ComplexConnection.readerAnswerStopped, wp_bind]
  refine wp_mono _ (nextAck hmax h hb) fun r c₁ es₁ ⟨h1, k, hseq, hlt, hk⟩ => ?_
  rw [wp_bind, wp_get, wp_ite]
  split
  · exact h1.trans (.send h1.records h1.receives.toBuffer fun _ =>
      ⟨k, by rw [hseq]; exact u32_of_lt hlt, hk⟩)
  · exact h1.trans (.send h1.records h1.receives.toBuffer fun ht => by cases ht)

theorem readerConnectionDoNetworkData (ha : a.WF) (h : Records c) (hb : Buffer a (Taken c) c) {p : Nat}
    (hp : p * packetMaxDataLength < a.blockLength) (sendTime : Nat) :
    wp (ComplexConnection.readerConnectionDoNetworkData (p * packetMaxDataLength) sendTime
        (a.chunk (p * packetMaxDataLength)) (a.chunk (p * packetMaxDataLength)).length)
      (fun _ c' es => Step a c c' es) c := by
  rw [ComplexConnection.readerConnectionDoNetworkData, wp_bind, wp_bitTest (by decide), wp_bind,
    wp_bitTest (by decide), wp_ite]
  cases hstop : c.has forceStopBit || c.has transSucBit with
  | true =>
    rw [if_pos (by simpa using hstop)]
    exact readerAnswerStopped hmax h hb
  | false =>
    rw [if_neg (by simpa using hstop), wp_bind]
    refine wp_mono _ (still.increaseRunningCount c) fun _ c₀ es₀ h0 => ?_
    have h0 := Step.ofStill h hb h0
    exact wp_mono _ (receivePacket ha h0.records h0.receives.toBuffer hp sendTime) fun _ _ _ h1 =>
      h0.trans h1

/-- `Recver_ACK_Timer`: an ack of the whole block arms `Recver_Succ_Timer`. -/
theorem readerAck (ha : a.WF) (hpos : 0 < a.blockLength) (h : Records c) (hb : Buffer a (Taken c) c) :
    wp ComplexConnection.readerAck (fun _ c' es => Step a c c' es) c := by
  rw [ComplexConnection.readerAck, wp_bind, wp_bitTest (by decide), wp_bind,
    wp_bitTest (by decide), wp_when]
  cases hstop : c.has forceStopBit || c.has transSucBit with
  | true =>
    rw [if_neg (not_not.2 (by simpa using hstop))]
    exact .ofStill h hb (still.refl c)
  | false =>
    rw [if_pos (by simpa using hstop), wp_bind]
    refine wp_mono _ (nextAck hmax h hb) fun ⟨type, ackSeq, sendTime⟩ c₁ es₁
      ⟨h1, k, hseq, hlt, hk⟩ => ?_
    have hseq : ackSeq = k * packetMaxDataLength := hseq
    rw [wp_bind]
    refine wp_mono _ (keeps_ite (Still.testAndSet _) (Still.testAndReset _) c₁) fun _ c₂ es₂ h2 => ?_
    have h2 := Step.ofStill h1.records h1.receives.toBuffer h2
    have hk2 : ∀ p < k, Taken c₂ p := fun p hp => h2.receives.mono p (hk p hp)
    rw [wp_bind, wp_sendDatagram]
    generalize hd : (⟨if type = .sack then .complexFileSack else .complexFileAck,
      c₂.id1, c₂.id0, sendTime, u32 ackSeq, []⟩ : Datagram) = d
    have h3 : Step a c₂ c₂ [.kernelSend d c₂.remoteAddr] :=
      .send h2.records h2.receives.toBuffer fun _ => ⟨k, by rw [← hd, hseq]; exact u32_of_lt hlt, hk2⟩
    rw [wp_bind, wp_get, wp_ite]
    by_cases hfull : ackSeq > sub32 c₂.transmitBufLength 1
    · have hall : All a c₂ := by
        refine all_of_prefix hk2 ?_
        rw [h2.receives.length, sub32_of_le ha.length hpos, hseq] at hfull
        omega
      rw [if_pos hfull]
      exact wp_mono _ (armSucc h2.records h2.receives.toBuffer hall) fun _ _ _ h4 =>
        h1.trans (h2.trans (h3.trans h4))
    · rw [if_neg hfull]
      have h4 : wp (addToTimerQueue recvAckTimer .recverAckTimer) (fun _ c' es => Still c₂ c' es) c₂ :=
        still.addToTimerQueue (by decide) c₂
      exact wp_mono _ h4 fun _ _ _ h4 =>
        h1.trans (h2.trans (h3.trans (.ofStill h2.records h2.receives.toBuffer h4)))

end acks

theorem readerSucc (ha : a.WF) (h : Records c) (hb : Buffer a (Taken c) c) (hall : All a c) :
    wp ComplexConnection.readerSucc (fun _ c' es => Step a c c' es) c := by
  rw [ComplexConnection.readerSucc, wp_bind]
  refine wp_mono _ (Still.testAndSet transSucBit c) fun old c₁ es₁ h1 => ?_
  have h1 := Step.ofStill h hb h1
  rw [wp_when]
  by_cases hold : old = 0
  · have hmsg := h1.receives.toBuffer.eq_message ha (hall.mono h1.receives.mono)
    rw [if_pos hold, pushMsg, wp_bind, wp_get, wp_emit, hmsg, Option.getD_some]
    exact h1.trans ⟨⟨h1.receives.toBuffer, .push⟩, h1.records, by simp [Life.armed]⟩
  · rw [if_neg hold]
    exact h1.trans (.ofStill h1.records h1.receives.toBuffer (still.refl c₁))

end handlers

/-! ### Readers of a complex send -/

structure Ok (a : SendArgs) (r : Life) : Prop extends Received a (Taken r.con) r where
  records : Records r.con
  timers : ∀ p ∈ r.timers, p.1 = .recverSuccTimer → All a r.con

section readers
variable {a : SendArgs} {r r' : Life} {x : ConM Unit} {c : Connection}

theorem Ok.ran (h : Ok a r) (hx : wp x (fun _ c' es => Step a r.con c' es) r.con) :
    Ok a (r.ran x) ∧ (All a r.con → All a (r.ran x).con) := by
  have hs : Step a r.con (r.ran x).con (exec x r.con).2 := by rw [Life.con_ran]; exact hx
  refine ⟨⟨h.toReceived.ran (x := x) ?_, hs.records, fun p hp ht => ?_⟩,
    fun hall => hall.mono hs.receives.mono⟩
  · rw [Life.con_ran]; exact hx.receives
  · rw [Life.timers_ran] at hp
    rcases List.mem_append.1 hp with hp | hp
    · exact (h.timers p hp ht).mono hs.receives.mono
    · exact hs.timers p hp ht

theorem Ok.thins (h : Ok a r) (ht : Life.Thins r r') : Ok a r' ∧ (All a r.con → All a r'.con) := by
  have hthin := h.toReceived.thins ht
  obtain ⟨hcon, -, htimers⟩ := ht
  rw [hcon]
  refine ⟨⟨?_, ?_, fun p hp htype => ?_⟩, id⟩
  · rw [hcon]; exact hthin
  · rw [hcon]; exact h.records
  · rw [hcon]; exact h.timers p (htimers p hp) htype

/-- `connection_do_require_duplicate` answers for the cursor of a simple reader only. -/
theorem Step.duplicate (h : Records c) (hb : Buffer a (Taken c) c) (complex : Bool) (d : Datagram)
    (addr : Nat) :
    wp (connectionDoRequireDuplicate complex d addr) (fun _ c' es => Step a c c' es) c := by
  rw [connectionDoRequireDuplicate, wp_bind, wp_get, wp_when, if_neg]
  · exact .ofStill h hb (still.refl c)
  · rintro ⟨-, -, hleft, -⟩
    rw [h.left] at hleft
    cases hleft

variable (ha : a.WF) (hbig : smallFileMaxSize < a.blockLength)
  (hmax : a.blockLength ≤ 2 ^ 32 - packetMaxDataLength)
include ha hmax

theorem Step.doNetworkData (h : Records c) (hb : Buffer a (Taken c) c) {p : Nat}
    (hp : p * packetMaxDataLength < a.blockLength) (inc now sendTime : Nat) :
    wp (ConM.doNetworkData inc now (p * packetMaxDataLength) sendTime
      (a.chunk (p * packetMaxDataLength))
      (a.chunk (p * packetMaxDataLength)).length) (fun _ c' es => Step a c c' es) c := by
  rw [wp_doNetworkData_complexReader h.kind]
  exact readerConnectionDoNetworkData hmax ha h hb hp sendTime

theorem Step.connectionDoNetworkData (h : Records c) (hb : Buffer a (Taken c) c) {d : Datagram}
    (hd : d.PacketOf a) (ht : d.msgType.target = .networkData) (inc now : Nat) :
    wp (ConM.connectionDoNetworkData inc now d d.data.length) (fun _ c' es => Step a c c' es) c := by
  obtain ⟨p, hnote, hp, hdata⟩ := hd.later ht
  rw [ConM.connectionDoNetworkData, wp_bind]
  refine wp_mono _ (still.when (still.adoptPeer (fun c _ _ => .emit c rfl) _ _) c) fun _ c₁ es₁ h1 => ?_
  have h1 := Step.ofStill h hb h1
  rw [hnote, hdata]
  exact wp_mono _ (Step.doNetworkData ha hmax h1.records h1.receives.toBuffer hp
    inc now _) fun _ _ _ h2 =>
    h1.trans h2

include hbig

theorem readers (addr : Nat) : Transfer.Readers a addr (Ok a) fun r => All a r.con where
  start {complex d newId attr buffer c} hd ht hfit hc := by
    obtain ⟨hcomplex, hnote, hdata⟩ := hd.first ht
    obtain rfl : complex = true := hcomplex.2 hbig
    obtain ⟨hb, hkind, hleft, -, hcol⟩ := buffer_of_equipReader hnote hfit hc
    have hzero : c.ackInfoCollector.Ok fun _ => False := by rw [hcol]; exact AckInfoCollector.ok_zero
    have hnone : Taken c = fun _ => False := hzero.eq_recorded.symm
    have hrecords : Records c := ⟨hkind, hleft, by rw [hnone]; exact hzero⟩
    have hok : Ok a ⟨c, .live, [], 0, []⟩ := ⟨by rw [hnone]; exact .init _ rfl hb, hrecords, by simp⟩
    refine (hok.ran ?_).1
    rw [receiveFirst, wp_bind, hdata]
    have hfirst := Step.doNetworkData ha hmax hrecords hok.toBuffer (p := 0) (by omega) 0 0 d.sendTime
    rw [Nat.zero_mul] at hfirst
    refine wp_mono _ hfirst fun _ c₁ es₁ h1 => ?_
    exact h1.trans (.ofStill h1.records h1.receives.toBuffer
      (still.bind (still.addToTimerQueue (by decide))
        (fun _ => still.when (still.addToTimerQueue (by decide))) c₁))
  step {r r' act} h hact hd hs := by
    have hkind := h.records.kind
    rcases Life.reader_cases (by rw [hkind]; rfl) hact hs with
      ⟨inc, now, d, len, rfl, rfl⟩ | ⟨r₀, t, rc, hthin, hmem, -, ht, rfl⟩ |
          ⟨r₀, hthin, rfl | ⟨x, rfl, hx⟩⟩
    · obtain ⟨hp, ht, rfl⟩ := hd inc now d len rfl
      exact h.ran (Step.connectionDoNetworkData ha hmax h.records h.toBuffer hp ht inc now)
    · obtain ⟨h0, hall0⟩ := h.thins hthin
      have hx : wp (ConM.doTimeOut t rc) (fun _ c' es => Step a r₀.con c' es) r₀.con := by
        rw [wp_doTimeOut_complexReader h0.records.kind]
        rcases ht with rfl | rfl
        · exact readerSucc ha h0.records h0.toBuffer (hall0 (h.timers _ hmem rfl))
        · exact readerAck hmax ha (by omega) h0.records h0.toBuffer
      obtain ⟨h1, hall1⟩ := h0.ran hx
      exact ⟨h1, fun hall => hall1 (hall0 hall)⟩
    · exact h.thins hthin
    · obtain ⟨h0, hall0⟩ := h.thins hthin
      obtain ⟨h1, hall1⟩ := h0.ran (x := x) (by
        rw [hthin.1]; exact .ofStill h.records h.toBuffer hx)
      exact ⟨h1, fun hall => hall1 (hall0 hall)⟩
  duplicate {r complex d} h := h.ran (Step.duplicate h.records h.toBuffer complex d addr)
  thins h ht := h.thins ht
  acks {r d} h hd ht := by
    obtain ⟨k, hk, hall⟩ := h.acks d hd ht
    refine ⟨⟨⟨k, by rw [hk, Nat.mul_comm]⟩, ?_⟩, fun hle => all_of_prefix hall (hk ▸ hle)⟩
    rw [hk]
    exact Nat.lt_of_lt_of_le (prefix_lt h.toBuffer hall) (Nat.add_le_of_le_sub (by decide) hmax)

/-- **Integrity of complex transfers.** Whatever the network loses, duplicates and reorders: every
buffer a reader hands over is the message, and a successful writer has a reader that stored all of
it. -/
theorem complexTransfer_integrity {id0 id1 addr : Nat} {s : Transfer.State}
    (h : (Transfer.machine a id0 id1 addr).Reach s) :
    (∀ r ∈ s.readers, r.PushesOnly a) ∧
      (s.writer.con.transResultCode = .successfully → ∃ r ∈ s.readers, r.Stored a) := by
  have hinv := Transfer.inv_of_reach ha (by omega) hmax (readers ha hbig hmax addr) h
  refine ⟨fun r hr => (hinv.readers r hr).pushes, fun hcode => ?_⟩
  obtain ⟨r, hr, hall⟩ := hinv.success hcode
  exact ⟨r, hr, (hinv.readers r hr).stored ha hall⟩

end readers

/-- Packet `p` of `shortestComplex` on its way from writer 1 to reader 2. -/
def packet (p : Nat) : Datagram :=
  if p = 0 then ⟨.complexFileRequire, 9, 1, 0, 23233, shortestComplex.chunk 0⟩
  else ⟨.complexFileData, 2, 1, 0, p * packetMaxDataLength,
    shortestComplex.chunk (p * packetMaxDataLength)⟩

/-- The ack timer of the reader expires, its ack of `k` packets comes back, and the sender runs. -/
def acked (k : Nat) : List Transfer.Act :=
  [.reader 0 (.timeOut 1), .writer
    (.networkData 0 0 ⟨.complexFileAck, 1, 2, 0, k * packetMaxDataLength, []⟩ 0),
      .writer (.sender fun _ => 0)]

/-- Two rounds of a transfer; the second and third packet change places. -/
def twoRounds : List Transfer.Act :=
  [.writer (.sender fun _ => 0),
    .require (packet 0) (some 2) none (some (List.replicate 23233 1))] ++
    acked 1 ++
    [.reader 0 (.networkData 0 0 (packet 2) 1452), .reader 0 (.networkData 0 0 (packet 1) 1452)] ++
    acked 3

theorem complexTransfer_integrity_twoRounds : ∃ s, (Transfer.machine shortestComplex 1 9 0).Reach s ∧
    (s.readers.length = 1 ∧ s.writer.con.leftWindowCursor = 4356) ∧
    (∀ r ∈ s.readers, r.PushesOnly shortestComplex) ∧
    (s.writer.con.transResultCode = .successfully → ∃ r ∈ s.readers, r.Stored shortestComplex) := by
  have hrun :
      (((Transfer.machine shortestComplex 1 9 0).run ⟨Life.startSender shortestComplex 1 9, [],
        []⟩ twoRounds).map fun s => (s.readers.length, s.writer.con.leftWindowCursor)) =
          some (1, 4356) := by
    decide +kernel
  obtain ⟨s, hs, hres⟩ := Option.map_eq_some_iff.1 hrun
  have hreach := Machine.ReachUnder.run (M := Transfer.machine shortestComplex 1 9 0) (.init rfl) hs
  exact ⟨s, hreach, ⟨congrArg Prod.fst hres, congrArg Prod.snd hres⟩,
    complexTransfer_integrity shortestComplex_wf (by decide) (by decide) hreach⟩

end Resend.Udp.ComplexTransfer
